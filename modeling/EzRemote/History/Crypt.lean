import EzRemote.Lib.Buffer
import EzRemote.History.Password

/-!
# The buffers of encryption

`openssl_encrypt` and `openssl_decrypt` of `crypt.c` on the arrays that
`CONFIG::Encrypt` and `CONFIG::Decrypt` give them, twice as long as the text.
-/

namespace EzRemote.History

/-- The calls of OpenSSL in one direction: the initialisation, and what
`EVP_CipherUpdate` and the final call write for a text and its length; `none` is a
result other than 1, and writes nothing. -/
structure EvpCipher where
  init : Bool
  update : Bytes → Int → Option Bytes
  final : Bytes → Int → Option Bytes

/-- OpenSSL with the key of `config.cpp`. -/
structure Evp where
  ctxNew : Bool
  encrypt : EvpCipher
  decrypt : EvpCipher

/-- The conversion of a `size_t` to `int`. -/
def toInt32 (n : Nat) : Int :=
  if n % 4294967296 < 2147483648 then (n % 4294967296 : Nat)
  else (n % 4294967296 : Nat) - 4294967296

namespace Evp

variable (evp : Evp)

/-- The body that `openssl_encrypt` and `openssl_decrypt` share.  `none` is a write
outside of the array; otherwise the array and the length of what was written, with
`none` for the result 0. -/
def opensslCrypt (cipher : EvpCipher) (input : Bytes) (inputLen : Int) (output : Bytes) :
    Option (Option (Bytes × Nat)) :=
  if !evp.ctxNew then some none
  else if !cipher.init then some none
  else
    match cipher.update input inputLen with
    | none => some none
    | some out =>
      (Buffer.write output 0 out).bind fun output =>
        match cipher.final input inputLen with
        | none => some none
        | some rest =>
          (Buffer.write output out.length rest).map fun output =>
            some (output, out.length + rest.length)

def opensslEncrypt (plaintext : Bytes) (plaintextLen : Int) (ciphertext : Bytes) :
    Option (Option (Bytes × Nat)) :=
  evp.opensslCrypt evp.encrypt plaintext plaintextLen ciphertext

def opensslDecrypt (ciphertext : Bytes) (ciphertextLen : Int) (plaintext : Bytes) :
    Option (Option (Bytes × Nat)) :=
  evp.opensslCrypt evp.decrypt ciphertext ciphertextLen plaintext

/-- `CONFIG::Encrypt`; the inner `none` is the result 0. -/
def configEncrypt (text : Bytes) : Option (Option Bytes) :=
  let tmpEncryptText := List.replicate (text.length * 2) 0
  (evp.opensslEncrypt text (toInt32 text.length) tmpEncryptText).bind fun written =>
    match written with
    | none => some none
    | some (tmpEncryptText, encryptTextLen) =>
      (Base64.encode (tmpEncryptText.take encryptTextLen)).map some

/-- `CONFIG::Decrypt`; the inner `none` is the result 0. -/
def configDecrypt (outside : Nat → UInt8) (text : Bytes) : Option (Option Bytes) :=
  (Base64.decode outside text).bind fun decoded =>
    match decoded with
    | none => some none
    | some tmpDecodeText =>
      let tmpDecryptText := List.replicate (tmpDecodeText.length * 2) 0
      (evp.opensslDecrypt tmpDecodeText (toInt32 tmpDecodeText.length) tmpDecryptText).map
        fun written => written.map fun w => w.1.take w.2

/-- `openssl_encrypt` writes inside of the array of `CONFIG::Encrypt`. -/
def EncryptInside (text : Bytes) : Prop :=
  (evp.opensslEncrypt text (toInt32 text.length) (List.replicate (text.length * 2) 0)).isSome = true

/-- `openssl_decrypt` writes inside of the array of `CONFIG::Decrypt`, whatever
bytes the stored text stands for. -/
def DecryptInside (outside : Nat → UInt8) (text : Bytes) : Prop :=
  ∀ tmpDecodeText, Base64.decode outside text = some (some tmpDecodeText) →
    (evp.opensslDecrypt tmpDecodeText (toInt32 tmpDecodeText.length)
      (List.replicate (tmpDecodeText.length * 2) 0)).isSome = true

/-- A context can be made and initialised. -/
def Ready (cipher : EvpCipher) : Prop := evp.ctxNew = true ∧ cipher.init = true

/-- AES in CBC mode with padding, in the two calls; a negative length is refused. -/
structure Padded : Prop where
  encrypts : ∀ text (n : Nat), n ≤ text.length → ∃ out rest,
    evp.encrypt.update text n = some out ∧ evp.encrypt.final text n = some rest ∧
      out.length + rest.length = 16 * (n / 16 + 1)
  decrypts : ∀ text (n : Nat) out, n ≤ text.length → evp.decrypt.update text n = some out →
    out.length ≤ n ∧ ∀ rest, evp.decrypt.final text n = some rest → out.length + rest.length ≤ n
  refuses : ∀ text n, n < 0 → evp.encrypt.update text n = none ∧ evp.decrypt.update text n = none

variable {evp}

/-- Both calls fit, or the first one that fails writes nothing. -/
theorem opensslCrypt_isSome_iff {cipher : EvpCipher} {input output : Bytes} {n : Int} :
    (evp.opensslCrypt cipher input n output).isSome = true ↔
      (evp.Ready cipher → ∀ out, cipher.update input n = some out → out.length ≤ output.length ∧
        ∀ rest, cipher.final input n = some rest → out.length + rest.length ≤ output.length) := by
  unfold opensslCrypt Ready
  cases hctx : evp.ctxNew with
  | false => simp
  | true =>
    cases hinit : cipher.init with
    | false => simp
    | true =>
      cases hupdate : cipher.update input n with
      | none => simp
      | some out =>
        cases hwrite : Buffer.write output 0 out with
        | none =>
          have hno : ¬ 0 + out.length ≤ output.length := by
            intro hle
            rw [Buffer.write_of_le hle] at hwrite
            cases hwrite
          simp only [Nat.zero_add] at hno
          simp [hwrite, hno]
        | some output' =>
          have hle := (Buffer.write_eq_some hwrite).1
          have hlen := Buffer.length_write hwrite
          simp only [Nat.zero_add] at hle
          cases hfinal : cipher.final input n with
          | none => simp [hwrite, hle]
          | some rest =>
            have hfits : (Buffer.write output' out.length rest).isSome = true ↔
                out.length + rest.length ≤ output.length := by
              rw [Buffer.write_isSome_iff, hlen]
            simp [hwrite, hle, hfits]

theorem toInt32_of_lt {n : Nat} (h : n < 2147483648) : toInt32 n = n := by
  unfold toInt32
  rw [if_pos (by omega)]
  omega

theorem toInt32_cases (n : Nat) : toInt32 n < 0 ∨ ∃ m : Nat, toInt32 n = m ∧ m ≤ n := by
  unfold toInt32
  by_cases h : n % 4294967296 < 2147483648
  · rw [if_pos h]
    exact .inr ⟨n % 4294967296, rfl, Nat.mod_le _ _⟩
  · rw [if_neg h]
    left
    omega

theorem encryptInside_iff (h : evp.Padded) {text : Bytes} (hne : text ≠ []) :
    evp.EncryptInside text ↔ (evp.Ready evp.encrypt → 8 ≤ text.length) := by
  have hpos : 0 < text.length := List.length_pos_iff.mpr hne
  unfold EncryptInside opensslEncrypt
  rw [opensslCrypt_isSome_iff]
  refine imp_congr_right fun _ => ?_
  rw [List.length_replicate]
  rcases toInt32_cases text.length with hneg | ⟨m, hm, hle⟩
  · -- OpenSSL refuses a length from 2 GiB on
    have hlarge : 8 ≤ text.length := by
      by_contra hlt
      rw [toInt32_of_lt (by omega)] at hneg
      omega
    refine iff_of_true ?_ hlarge
    intro out hout
    rw [(h.refuses text _ hneg).1] at hout
    cases hout
  · obtain ⟨out, rest, hupdate, hfinal, hlen⟩ := h.encrypts text m hle
    rw [hm]
    constructor
    · intro hfits
      have hboth : out.length + rest.length ≤ text.length * 2 := (hfits out hupdate).2 rest hfinal
      by_contra hlt
      have hsmall : m = text.length := by
        have heq := toInt32_of_lt (n := text.length) (by omega)
        omega
      omega
    · intro hlarge out' hout'
      rw [hupdate] at hout'
      cases hout'
      refine ⟨by omega, ?_⟩
      intro rest' hrest'
      rw [hfinal] at hrest'
      cases hrest'
      omega

theorem decryptInside (h : evp.Padded) (outside : Nat → UInt8) (text : Bytes) :
    evp.DecryptInside outside text := by
  intro decoded _
  unfold opensslDecrypt
  rw [opensslCrypt_isSome_iff]
  intro _ out hout
  rw [List.length_replicate]
  rcases toInt32_cases decoded.length with hneg | ⟨m, hm, hle⟩
  · rw [(h.refuses decoded _ hneg).2] at hout
    cases hout
  · rw [hm] at hout ⊢
    obtain ⟨hlen, hrest⟩ := h.decrypts decoded m out hle hout
    refine ⟨by omega, ?_⟩
    intro rest hfinal
    have hboth := hrest rest hfinal
    omega

/-- What the calls of one direction make of a text. -/
def crypt (evp : Evp) (cipher : EvpCipher) (text : Bytes) : Option Bytes :=
  if evp.ctxNew && cipher.init then do
    let out ← cipher.update text (toInt32 text.length)
    let rest ← cipher.final text (toInt32 text.length)
    return out ++ rest
  else none

/-- OpenSSL as the saves and loads of the history see it. -/
def aes (evp : Evp) : Aes := ⟨evp.crypt evp.encrypt, evp.crypt evp.decrypt⟩

/-- As long as the calls fit, the array begins with what they made. -/
theorem opensslCrypt_eq {cipher : EvpCipher} {text output : Bytes} {written : Option (Bytes × Nat)}
    (h : evp.opensslCrypt cipher text (toInt32 text.length) output = some written) :
    written.map (fun w => w.1.take w.2) = evp.crypt cipher text := by
  unfold opensslCrypt at h
  unfold crypt
  cases hctx : evp.ctxNew with
  | false =>
    simp only [hctx, Bool.not_false, if_true] at h
    cases h
    rfl
  | true =>
    cases hinit : cipher.init with
    | false =>
      simp only [hctx, hinit, Bool.not_true, Bool.false_eq_true, if_false, Bool.not_false,
        if_true] at h
      cases h
      rfl
    | true =>
      simp only [hctx, hinit, Bool.not_true, Bool.false_eq_true, if_false] at h
      rw [if_pos (by rfl)]
      cases hupdate : cipher.update text (toInt32 text.length) with
      | none =>
        rw [hupdate] at h
        cases h
        rfl
      | some out =>
        rw [hupdate] at h
        obtain ⟨output', hwrite, h⟩ := Option.bind_eq_some_iff.mp h
        cases hfinal : cipher.final text (toInt32 text.length) with
        | none =>
          rw [hfinal] at h
          cases h
          rfl
        | some rest =>
          rw [hfinal] at h
          obtain ⟨output'', hwrite', rfl⟩ := Option.map_eq_some_iff.mp h
          have hfront : output'.take out.length = out := by
            have htake := Buffer.take_write hwrite
            rwa [Nat.zero_add, List.take_zero, List.nil_append] at htake
          have hall := Buffer.take_write hwrite'
          rw [hfront] at hall
          exact congrArg some hall

/-- Inside of its array `CONFIG::Encrypt` does what the history relies on. -/
theorem configEncrypt_eq_aes {text : Bytes} (h : evp.EncryptInside text) :
    evp.configEncrypt text = evp.aes.configEncrypt text := by
  obtain ⟨written, hwritten⟩ := Option.isSome_iff_exists.mp h
  have hcrypt := opensslCrypt_eq hwritten
  unfold configEncrypt Aes.configEncrypt aes
  dsimp only
  rw [hwritten, Option.bind_some, ← hcrypt]
  cases written with
  | none => rfl
  | some w => rfl

theorem configDecrypt_eq_aes (h : evp.Padded) (outside : Nat → UInt8) (text : Bytes) :
    evp.configDecrypt outside text = evp.aes.configDecrypt outside text := by
  have hinside := decryptInside h outside text
  unfold configDecrypt Aes.configDecrypt
  cases hdecode : Base64.decode outside text with
  | none => rfl
  | some decoded =>
    cases decoded with
    | none => rfl
    | some t =>
      obtain ⟨written, hwritten⟩ := Option.isSome_iff_exists.mp (hinside t hdecode)
      have hcrypt := opensslCrypt_eq hwritten
      dsimp only [Option.bind_some, Option.map_some]
      rw [hwritten, Option.map_some, hcrypt]
      rfl

/-- The blocks of the padded text fit into the array of `CONFIG::Encrypt` from 8
bytes on, and what `CONFIG::Decrypt` gets always fits. -/
theorem crypt_inside_iff (h : evp.Padded) :
    (∀ text, text ≠ [] → (evp.EncryptInside text ↔ (evp.Ready evp.encrypt → 8 ≤ text.length))) ∧
      ∀ outside text, evp.DecryptInside outside text :=
  ⟨fun _ hne => encryptInside_iff h hne, decryptInside h⟩

/-- The ciphertext of `password` with the key of `config.cpp`. -/
def passwordBlock : Bytes :=
  [45, 250, 152, 12, 244, 157, 251, 216, 189, 35, 75, 111, 251, 127, 171, 240]

/-- OpenSSL at the password `password` and at its ciphertext; for other texts only
the lengths are right. -/
def sampleEvp : Evp :=
  { ctxNew := true
    encrypt :=
      { init := true
        update := fun _ n => if n < 0 then none else some (List.replicate (16 * (n.toNat / 16)) 0)
        final := fun text _ =>
          some (if text = bytes "password" then passwordBlock else List.replicate 16 0) }
    decrypt :=
      { init := true
        update := fun text n =>
          if n < 0 then none else some (if text = passwordBlock then [] else text.take n.toNat)
        final := fun text n =>
          if text = passwordBlock ∧ n = 16 then some (bytes "password") else none } }

theorem sampleEvp_padded : sampleEvp.Padded := by
  have hnat : ∀ n : Nat, ¬ (n : Int) < 0 := fun n => by omega
  refine ⟨?_, ?_, ?_⟩
  · intro text n _
    have hblock : ∀ b : Bytes, (if b = bytes "password" then passwordBlock
        else List.replicate 16 0).length = 16 := by
      intro b
      split <;> rfl
    refine ⟨List.replicate (16 * (n / 16)) 0, _, ?_, rfl, ?_⟩
    · simp [sampleEvp, hnat]
    · rw [hblock, List.length_replicate]
      omega
  · intro text n out hn hout
    simp only [sampleEvp, hnat, if_false, Option.some.injEq, Int.toNat_natCast] at hout
    subst hout
    by_cases htext : text = passwordBlock
    · rw [if_pos htext]
      refine ⟨Nat.zero_le n, ?_⟩
      intro rest hrest
      have hfinal : text = passwordBlock ∧ (n : Int) = 16 ∧ bytes "password" = rest := by
        simpa [sampleEvp, and_assoc] using hrest
      have hlen : rest.length = 8 := by rw [← hfinal.2.2]; decide
      rw [List.length_nil]
      omega
    · rw [if_neg htext]
      refine ⟨by rw [List.length_take]; omega, ?_⟩
      intro rest hrest
      simp [sampleEvp, htext] at hrest
  · intro text n hn
    exact ⟨if_pos hn, if_pos hn⟩

theorem crypt_inside_iff_eight : sampleEvp.Padded ∧
    (sampleEvp.EncryptInside (bytes "password") ↔
      (sampleEvp.Ready sampleEvp.encrypt → 8 ≤ (bytes "password").length)) :=
  ⟨sampleEvp_padded, (crypt_inside_iff sampleEvp_padded).1 _ (by decide)⟩

/-- A password of six bytes: one block of 16 bytes is written to an array of 12. -/
theorem crypt_inside_iff_short : sampleEvp.Padded ∧ bytes "secret" ≠ [] ∧
    ¬ sampleEvp.EncryptInside (bytes "secret") := by
  refine ⟨sampleEvp_padded, by decide, ?_⟩
  intro h
  have hlen := (encryptInside_iff sampleEvp_padded (by decide)).mp h ⟨rfl, rfl⟩
  exact absurd hlen (by decide)

end Evp

end EzRemote.History
