import Mathlib.Algebra.Ring.Nat
import Mathlib.Data.List.Induction
import TokenRing.Partitioner
import TokenRing.Proofs.Text.Blank
import TokenRing.Proofs.Text.Decimal
import TokenRing.Proofs.Text.HexBytes

/-!
# Texts of tokens

Every token of the three token spaces can be read back from its text, whatever blanks there are
around it. In particular this goes for the token of any key.
-/

namespace TokenRing

/-! ### The texts -/

/-- The text of a token: an integer in decimal, or bytes in pairs of hexadecimal digits behind a
mark. -/
def Partitioner.written : (p : Partitioner) → p.Token → String
  | murmur3, (t : Murmur3Token) => toString t.value.toInt
  | random, (t : RandomToken) => toString t.value
  | byteOrdered, (t : ByteToken) =>
    "0x" ++ String.join (t.bytes.map fun b =>
      String.ofList ((Nat.toDigits 16 b.toNat).leftpad 2 '0'))

/-- Every token shows itself in the writing of its space. -/
theorem Partitioner.text_eq_written (p : Partitioner) (t : p.Token) :
    Token.text t = p.written t := by
  cases p with
  | murmur3 => exact Text.ofList_signedDecimal (t : Murmur3Token).value.toInt
  | random => exact Text.ofList_decimal (t : RandomToken).value
  | byteOrdered =>
    show String.ofList (['0', 'x'] ++ Text.hexBytes (t : ByteToken).bytes) = _
    rw [String.ofList_append, Text.ofList_hexBytes]
    rfl

/-! ### Reading tokens back -/

section Reading

variable {before after : String} (hbefore : ∀ c ∈ before.toList, Text.isBlank c = true)
  (hafter : ∀ c ∈ after.toList, Text.isBlank c = true)

include hbefore hafter

theorem Text.trim_text {text : List Char} (htext : ∀ c ∈ text, isBlank c = false) :
    trim (before ++ String.ofList text ++ after).toList = text := by
  rw [String.toList_append, String.toList_append, String.toList_ofList]
  exact trim_append hbefore hafter htext

/-- The text of an integer of 64 bits is in the reader's range. -/
theorem Murmur3Token.parse_padded (t : Murmur3Token) :
    parse (before ++ Token.text t ++ after) = .ok t := by
  have hblank : ∀ c ∈ Text.signedDecimal t.value.toInt, Text.isBlank c = false := fun _ =>
    Text.isBlank_of_mem_signedDecimal
  have htrim := Text.trim_text hbefore hafter hblank
  have hleast := t.value.le_toInt
  have hgreatest := t.value.toInt_lt
  have hparse : Text.parseInt 0x8000000000000000 0x7fffffffffffffff
      (Text.signedDecimal t.value.toInt) = .ok t.value.toInt :=
    Text.parseInt_signedDecimal (by omega) (by omega)
  show parse (before ++ String.ofList (Text.signedDecimal t.value.toInt) ++ after) = .ok t
  rw [parse, htrim, hparse]
  show Except.ok (⟨Int64.ofInt t.value.toInt⟩ : Murmur3Token) = .ok t
  rw [Int64.ofInt_toInt]

/-- The text of a number up to 2^127 passes both limits of the reader. -/
theorem RandomToken.parse_padded (t : RandomToken) :
    parse (before ++ Token.text t ++ after) = .ok t := by
  have hblank : ∀ c ∈ Text.decimal t.value, Text.isBlank c = false := fun _ =>
    Text.isBlank_of_mem_decimal
  have htrim := Text.trim_text hbefore hafter hblank
  have hvalue := t.value_le
  have hparse : Text.parseNat 0xffffffffffffffffffffffffffffffff (Text.decimal t.value) =
      .ok t.value :=
    Text.parseNat_decimal (by omega)
  show parse (before ++ String.ofList (Text.decimal t.value) ++ after) = .ok t
  rw [parse, htrim, hparse]
  exact dif_pos hvalue

/-- Behind its mark, the text of bytes is pairs of digits. -/
theorem ByteToken.parse_padded (t : ByteToken) :
    parse (before ++ Token.text t ++ after) = .ok t := by
  have hblank : ∀ c ∈ '0' :: 'x' :: Text.hexBytes t.bytes, Text.isBlank c = false :=
    List.forall_mem_cons.2 ⟨rfl, List.forall_mem_cons.2 ⟨rfl, fun c => Text.isBlank_of_mem_hexBytes⟩⟩
  have htrim := Text.trim_text hbefore hafter hblank
  show parse (before ++ String.ofList ('0' :: 'x' :: Text.hexBytes t.bytes) ++ after) = .ok t
  rw [parse, htrim, stripMark, Text.parseHexBytes_hexBytes]

theorem Partitioner.parse_padded (p : Partitioner) (t : p.Token) :
    p.parse (before ++ Token.text t ++ after) = .ok t := by
  have hread : p.read (before ++ Token.text t ++ after) = .ok t := by
    cases p with
    | murmur3 => exact Murmur3Token.parse_padded hbefore hafter t
    | random => exact RandomToken.parse_padded hbefore hafter t
    | byteOrdered => exact ByteToken.parse_padded hbefore hafter t
  rw [parse, hread]
  rfl

end Reading

/-! ### Tokens of keys -/

theorem Hash.bigEndian_lt (bytes : List UInt8) : bigEndian bytes < 256 ^ bytes.length := by
  induction bytes using List.reverseRecOn with
  | nil => decide
  | append_singleton bytes b ih =>
    have hb := b.toNat_lt
    rw [bigEndian, List.foldl_append, List.length_append, List.length_singleton, pow_succ]
    show 256 * bigEndian bytes + b.toNat < 256 ^ bytes.length * 256
    omega

/-- The least signed integer has no negative, but its magnitude is still a token. -/
theorem natAbs_toInt_ofNat {n : Nat} (h : n < 0x100000000000000000000000000000000) :
    (BitVec.ofNat 128 n).toInt.natAbs =
      if n ≤ 0x80000000000000000000000000000000 then n
      else 0x100000000000000000000000000000000 - n := by
  rw [BitVec.toInt_eq_toNat_cond, BitVec.toNat_ofNat, Nat.mod_eq_of_lt h]
  split <;> split <;> omega

/-- The magnitude is that of the digest in two's complement. -/
theorem RandomToken.value_ofKey (key : List UInt8) :
    (ofKey key).value =
      (BitVec.ofNat 128 (Hash.bigEndian (Hash.Md5.digest key))).toInt.natAbs := by
  have hlt := Hash.bigEndian_lt (Hash.Md5.digest key)
  rw [Hash.Md5.length_digest] at hlt
  rw [natAbs_toInt_ofNat (by omega), ofKey]
  split <;> rfl

/-! ### Main result -/

/-- Any token can be read from its text with blanks before and after it. So the text of a key's token
gives that token again, which under the Murmur3 partitioner is never the least one and under the
random partitioner is the digest as a signed integer of 128 bits without its sign, at most 2^127. -/
theorem Partitioner.parse_text :
    (∀ (p : Partitioner) (t : p.Token) (before after : String),
      (∀ c ∈ before.toList, Text.isBlank c = true) →
      (∀ c ∈ after.toList, Text.isBlank c = true) →
      p.parse (before ++ Token.text t ++ after) = .ok t) ∧
    (∀ (p : Partitioner) (key : List UInt8),
      p.parse (Token.text (p.ofKey key)) = .ok (p.ofKey key)) ∧
    ∀ key : List UInt8,
      Murmur3Token.ofKey key ≠ ⟨Int64.minValue⟩ ∧
      (RandomToken.ofKey key).value =
        (BitVec.ofNat 128 (Hash.bigEndian (Hash.Md5.digest key))).toInt.natAbs ∧
      (RandomToken.ofKey key).value ≤ 0x80000000000000000000000000000000 := by
  refine ⟨?_, ?_, ?_⟩
  · intro p t before after hbefore hafter
    exact p.parse_padded hbefore hafter t
  · intro p key
    have hparse : p.parse ("" ++ Token.text (p.ofKey key) ++ "") = .ok (p.ofKey key) :=
      p.parse_padded (by simp) (by simp) (p.ofKey key)
    rwa [String.empty_append, String.append_empty] at hparse
  · intro key
    exact ⟨Murmur3Token.ofKey_ne_least key, RandomToken.value_ofKey key,
      (RandomToken.ofKey key).value_le⟩

/-- The outermost tokens, one of which has no digit at all. -/
theorem Partitioner.parse_text_outermost :
    murmur3.parse ("\t\u3000" ++ Token.text (⟨Int64.minValue⟩ : Murmur3Token) ++ "\n") =
      .ok (⟨Int64.minValue⟩ : Murmur3Token) ∧
    random.parse
        (" " ++ Token.text (⟨0x80000000000000000000000000000000, Nat.le_refl _⟩ : RandomToken) ++ "") =
      .ok (⟨0x80000000000000000000000000000000, Nat.le_refl _⟩ : RandomToken) ∧
    byteOrdered.parse ("" ++ Token.text (⟨[]⟩ : ByteToken) ++ "\u0085") = .ok (⟨[]⟩ : ByteToken) := by
  obtain ⟨hall, -, -⟩ := parse_text
  refine ⟨?_, ?_, ?_⟩
  · exact hall murmur3 ⟨Int64.minValue⟩ "\t\u3000" "\n" (List.all_eq_true.1 rfl)
      (List.all_eq_true.1 rfl)
  · exact hall random ⟨0x80000000000000000000000000000000, Nat.le_refl _⟩ " " ""
      (List.all_eq_true.1 rfl) (List.all_eq_true.1 rfl)
  · exact hall byteOrdered ⟨[]⟩ "" "\u0085" (List.all_eq_true.1 rfl) (List.all_eq_true.1 rfl)

end TokenRing
