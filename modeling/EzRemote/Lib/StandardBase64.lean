import Mathlib.Data.List.Basic

/-!
# Standard Base64

The encoding as a relation between bytes and text: three bytes are four digits of
six bits, and one or two bytes at the end are padded with `=`.  A text may leave
bits that belong to no byte in its last digit; the strict encoding has zeros
there.
-/

namespace EzRemote.StandardBase64

/-- The character of a digit below 64. -/
def alphabet (n : Nat) : UInt8 :=
  if n < 26 then UInt8.ofNat (65 + n)
  else if n < 52 then UInt8.ofNat (97 + (n - 26))
  else if n < 62 then UInt8.ofNat (48 + (n - 52))
  else if n = 62 then 43
  else 47

def pad : UInt8 := 61

/-- The text on the right stands for the bytes on the left. -/
inductive Encodes (strict : Prop) : List UInt8 → List UInt8 → Prop
  | nil : Encodes strict [] []
  | group {x y z : UInt8} {p q r s : Nat} {b text : List UInt8}
      (hp : p < 64) (hq : q < 64) (hr : r < 64) (hs : s < 64)
      (h : x.toNat * 65536 + y.toNat * 256 + z.toNat = p * 262144 + q * 4096 + r * 64 + s)
      (ht : Encodes strict b text) :
      Encodes strict (x :: y :: z :: b)
        (alphabet p :: alphabet q :: alphabet r :: alphabet s :: text)
  | two {x y : UInt8} {p q r : Nat} (hp : p < 64) (hq : q < 64) (hr : r < 64)
      (h : x.toNat * 256 + y.toNat = (p * 4096 + q * 64 + r) / 4) (hz : strict → r % 4 = 0) :
      Encodes strict [x, y] [alphabet p, alphabet q, alphabet r, pad]
  | one {x : UInt8} {p q : Nat} (hp : p < 64) (hq : q < 64)
      (h : x.toNat = (p * 64 + q) / 16) (hz : strict → q % 16 = 0) :
      Encodes strict [x] [alphabet p, alphabet q, pad, pad]

variable {strict : Prop} {b text : List UInt8}

theorem Encodes.length_eq (h : Encodes strict b text) : text.length = 4 * ((b.length + 2) / 3) := by
  induction h with
  | nil => rfl
  | group hp hq hr hs h ht ih =>
    simp only [List.length_cons, ih]
    omega
  | two => simp
  | one => simp

theorem Encodes.mem (h : Encodes strict b text) :
    ∀ c ∈ text, c = pad ∨ ∃ n < 64, c = alphabet n := by
  induction h with
  | nil => exact fun c hc => absurd hc List.not_mem_nil
  | @group x y z p q r s b text hp hq hr hs h ht ih =>
    intro c hc
    simp only [List.mem_cons] at hc
    rcases hc with rfl | rfl | rfl | rfl | hc
    · exact .inr ⟨p, hp, rfl⟩
    · exact .inr ⟨q, hq, rfl⟩
    · exact .inr ⟨r, hr, rfl⟩
    · exact .inr ⟨s, hs, rfl⟩
    · exact ih c hc
  | @two x y p q r hp hq hr h hz =>
    intro c hc
    simp only [List.mem_cons, List.not_mem_nil, or_false] at hc
    rcases hc with rfl | rfl | rfl | rfl
    · exact .inr ⟨p, hp, rfl⟩
    · exact .inr ⟨q, hq, rfl⟩
    · exact .inr ⟨r, hr, rfl⟩
    · exact .inl rfl
  | @one x p q hp hq h hz =>
    intro c hc
    simp only [List.mem_cons, List.not_mem_nil, or_false] at hc
    rcases hc with rfl | rfl | rfl | rfl
    · exact .inr ⟨p, hp, rfl⟩
    · exact .inr ⟨q, hq, rfl⟩
    · exact .inl rfl
    · exact .inl rfl

theorem alphabet_ne_pad {n : Nat} (h : n < 64) : alphabet n ≠ pad := by
  have hall : ∀ n : Fin 64, alphabet n ≠ pad := by decide
  exact hall ⟨n, h⟩

end EzRemote.StandardBase64
