/-
  `CodePoint` — what texts are made of.

  Most code points are characters. The others are the surrogates, which some encodings use in pairs
  to stand for one character. A text may hold a surrogate that is not one of a pair, and does where
  an encoded name spells one.

  Code points are compared by their numbers. A character is a code point, so literals can be written
  for code points.
-/

namespace SwiftABI

/-- A code point. -/
inductive CodePoint where
  | char (c : Char)
  /-- A surrogate, by the number of surrogates before it. -/
  | surrogate (i : Fin 0x800)
  deriving DecidableEq

namespace CodePoint

instance : Coe Char CodePoint := ⟨char⟩

instance : Inhabited CodePoint := ⟨'\x00'⟩

/-- The first surrogate. -/
def firstSurrogate : Nat := 0xD800

def toNat : CodePoint → Nat
  | .char c => c.toNat
  | .surrogate i => firstSurrogate + i

/-- The code point with a number. -/
def ofNat (n : Nat) : CodePoint :=
  if h : firstSurrogate ≤ n ∧ n < firstSurrogate + 0x800 then
    .surrogate ⟨n - firstSurrogate, by omega⟩
  else .char (Char.ofNat n)

instance : LE CodePoint := ⟨fun a b => a.toNat ≤ b.toNat⟩

instance (a b : CodePoint) : Decidable (a ≤ b) := inferInstanceAs (Decidable (a.toNat ≤ b.toNat))

theorem le_def {a b : CodePoint} : a ≤ b ↔ a.toNat ≤ b.toNat := Iff.rfl

@[simp] theorem toNat_char (c : Char) : (char c).toNat = c.toNat := rfl

@[simp] theorem toNat_surrogate (i : Fin 0x800) : (surrogate i).toNat = firstSurrogate + i := rfl

/-- Is this a character? -/
def isChar : CodePoint → Bool
  | .char _ => true
  | .surrogate _ => false

end CodePoint

/-- A name, a symbol or a piece of either. -/
abbrev Text := List CodePoint

end SwiftABI

/-- A string as a text. -/
def String.text (s : String) : SwiftABI.Text := s.toList.map SwiftABI.CodePoint.char

instance : Coe String SwiftABI.Text := ⟨String.text⟩
