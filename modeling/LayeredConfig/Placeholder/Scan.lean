import LayeredConfig.Text

/-! Where placeholders stand in a text. A placeholder opens with `${` and ends at the `}` that closes
it; placeholders nest, plain braces do not. Inside the braces stands a key and, after the first `:`
that lies in no nested placeholder, a default. -/

namespace LayeredConfig.Placeholder

/-- The text before the first `${`, and the text after it. -/
def splitOpen : Text → Option (Text × Text)
  | [] => none
  | '$' :: '{' :: t => some ([], t)
  | c :: t => (splitOpen t).map fun (before, after) => (c :: before, after)

/-- With `depth` nested placeholders open: the text before the `}` that closes the outermost one, and
the text after it. -/
def closeAt : Nat → Text → Option (Text × Text)
  | _, [] => none
  | depth, '$' :: '{' :: t => (closeAt (depth + 1) t).map fun (body, rest) => ('$' :: '{' :: body, rest)
  | 0, '}' :: t => some ([], t)
  | depth + 1, '}' :: t => (closeAt depth t).map fun (body, rest) => ('}' :: body, rest)
  | depth, c :: t => (closeAt depth t).map fun (body, rest) => (c :: body, rest)

/-- Splits a text that starts just after a `${` into the placeholder's body and what follows its
closing `}`. -/
def splitClose (t : Text) : Option (Text × Text) := closeAt 0 t

/-- The key part before the first `:` outside every nested placeholder, and the default after it. A
`}` that closes nothing leaves the depth at zero. -/
def defaultAt : Nat → Text → Text × Option Text
  | _, [] => ([], none)
  | depth, '$' :: '{' :: t => let (key, default) := defaultAt (depth + 1) t; ('$' :: '{' :: key, default)
  | depth, '}' :: t => let (key, default) := defaultAt (depth - 1) t; ('}' :: key, default)
  | 0, ':' :: t => ([], some t)
  | depth, c :: t => let (key, default) := defaultAt depth t; (c :: key, default)

/-- Splits a body into its key and its default. -/
def splitDefault (body : Text) : Text × Option Text := defaultAt 0 body

theorem length_of_splitOpen {t before after : Text} (h : splitOpen t = some (before, after)) :
    t.length = before.length + 2 + after.length := by
  fun_induction splitOpen t generalizing before with
  | case1 => cases h
  | case2 => cases h; simp; omega
  | case3 c t _ ih =>
    obtain ⟨⟨b, a⟩, hs, heq⟩ := Option.map_eq_some_iff.1 h
    cases heq
    simp [ih hs]
    omega

theorem length_of_closeAt {depth : Nat} {t body rest : Text} (h : closeAt depth t = some (body, rest)) :
    t.length = body.length + 1 + rest.length := by
  fun_induction closeAt depth t generalizing body with
  | case1 => cases h
  | case2 depth t ih =>
    obtain ⟨⟨b, r⟩, hs, heq⟩ := Option.map_eq_some_iff.1 h
    cases heq
    simp [ih hs]
    omega
  | case3 => cases h; simp; omega
  | case4 depth t ih =>
    obtain ⟨⟨b, r⟩, hs, heq⟩ := Option.map_eq_some_iff.1 h
    cases heq
    simp [ih hs]
    omega
  | case5 depth c t _ _ _ ih =>
    obtain ⟨⟨b, r⟩, hs, heq⟩ := Option.map_eq_some_iff.1 h
    cases heq
    simp [ih hs]
    omega

theorem length_of_splitClose {t body rest : Text} (h : splitClose t = some (body, rest)) :
    t.length = body.length + 1 + rest.length :=
  length_of_closeAt h

theorem length_fst_defaultAt (depth : Nat) (t : Text) : (defaultAt depth t).1.length ≤ t.length := by
  fun_induction defaultAt depth t <;> simp_all

theorem length_snd_defaultAt {depth : Nat} {t default : Text} (h : (defaultAt depth t).2 = some default) :
    default.length < t.length := by
  fun_induction defaultAt depth t <;> simp_all <;> omega

end LayeredConfig.Placeholder
