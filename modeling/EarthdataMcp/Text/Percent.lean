import Mathlib.Tactic

/-!
# Percent-encoding

A text is written in the characters that need no quoting in a URL, and a percent sign and two
hexadecimal digits for each byte of the others.

* `quote`, with no safe characters of its own;
* `notMem_quote`: no other character occurs.
-/

namespace Text

/-- The characters that are never quoted. -/
def Unreserved (c : Char) : Prop := c.isAlphanum ∨ c = '_' ∨ c = '.' ∨ c = '-' ∨ c = '~'

instance : DecidablePred Unreserved := fun _ => inferInstanceAs (Decidable (_ ∨ _))

/-- A digit in hexadecimal, in upper case. -/
def upperHexDigit (n : ℕ) : Char := if n < 10 then Char.ofNat (48 + n) else Char.ofNat (55 + n)

/-- One byte. -/
def quoteByte (b : UInt8) : List Char :=
  let c := Char.ofNat b.toNat
  -- a byte from 128 on is no character of ASCII
  if b.toNat < 128 ∧ Unreserved c then [c]
  else ['%', upperHexDigit (b.toNat / 16), upperHexDigit (b.toNat % 16)]

/-- `quote(text, safe="")`. -/
def quote (text : List Char) : List Char :=
  (text.flatMap String.utf8EncodeChar).flatMap quoteByte

theorem unreserved_upperHexDigit {n : ℕ} (h : n < 16) : Unreserved (upperHexDigit n) := by
  have hall : ∀ m : Fin 16, Unreserved (upperHexDigit m) := by decide
  exact hall ⟨n, h⟩

theorem of_mem_quoteByte {c : Char} {b : UInt8} (h : c ∈ quoteByte b) : Unreserved c ∨ c = '%' := by
  have hb : b.toNat < 256 := b.toNat_lt
  unfold quoteByte at h
  dsimp only at h
  split_ifs at h with hplain
  · rw [List.mem_singleton] at h
    rw [h]
    exact Or.inl hplain.2
  · simp only [List.mem_cons, List.not_mem_nil, or_false] at h
    rcases h with rfl | rfl | rfl
    · exact Or.inr rfl
    · exact Or.inl (unreserved_upperHexDigit (by omega))
    · exact Or.inl (unreserved_upperHexDigit (by omega))

/-- A character that would be quoted does not occur in a quoted text. -/
theorem notMem_quote {c : Char} (hc : ¬ Unreserved c) (hpercent : c ≠ '%') (text : List Char) :
    c ∉ quote text := by
  intro h
  obtain ⟨b, -, hb⟩ := List.mem_flatMap.1 h
  rcases of_mem_quoteByte hb with hplain | heq
  · exact hc hplain
  · exact hpercent heq

end Text
