import PrdApiWrapper.Decimals
import PrdApiWrapper.Rules
import Mathlib.Logic.Encodable.Basic
import Mathlib.Logic.Equiv.List

/-!
# Signatures

A signature is over `timestamp.body`. That it binds both rests on the dot: no decimal rendering of
a timestamp contains one, so the first dot of a message ends the timestamp, however many dots and
digits the body starts with.
-/

namespace PrdApiWrapper

open Interaction

/-! ## Bytes -/

/-- The bytes of a byte array. -/
theorem byteArray_toList (bytes : ByteArray) : bytes.toList = bytes.data.toList := by
  have hloop : ∀ left i r, bytes.size - i = left →
      ByteArray.toList.loop bytes i r = r.reverse ++ bytes.data.toList.drop i := by
    intro left
    induction left with
    | zero =>
      intro i r hleft
      have hsize : bytes.data.toList.length ≤ i := Nat.sub_eq_zero_iff_le.mp hleft
      have hnot : ¬ i < bytes.size := Nat.not_lt.mpr hsize
      rw [ByteArray.toList.loop, if_neg hnot, List.drop_eq_nil_of_le hsize, List.append_nil]
    | succ left ih =>
      intro i r hleft
      have hi : i < bytes.size := by omega
      have hi' : i < bytes.data.toList.length := hi
      have hget : bytes.get! i = bytes.data.toList[i] := by
        exact getElem!_pos bytes.data i hi
      rw [ByteArray.toList.loop, if_pos hi, ih (i + 1) _ (by omega), List.reverse_cons,
        List.append_assoc, List.drop_eq_getElem_cons hi', hget]
      rfl
  exact hloop _ 0 [] rfl

theorem encode_eq (text : String) : encode text = text.toList.flatMap String.utf8EncodeChar := by
  rw [encode, String.toUTF8_eq_toByteArray, byteArray_toList, ← String.utf8Encode_toList,
    List.utf8Encode, List.toList_data_toByteArray]

theorem encode_append (text text' : String) :
    encode (text ++ text') = encode text ++ encode text' := by
  rw [encode_eq, encode_eq, encode_eq, String.toList_append, List.flatMap_append]

/-- Texts with the same bytes are the same. -/
theorem encode_injective : Function.Injective encode := by
  intro text text' h
  rw [encode, encode, byteArray_toList, byteArray_toList] at h
  exact String.toByteArray_inj.mp (ByteArray.ext (Array.toList_inj.mp h))

/-- The bytes of a timestamp and its dot. -/
theorem encode_dot (text : String) : encode (text ++ ".") = encode text ++ [46] := by
  rw [encode_append]
  have hdot : encode "." = [46] := by
    rw [encode_eq]
    decide
  rw [hdot]

/-- The one byte of an ASCII character. -/
theorem utf8EncodeChar_of_lt {c : Char} (h : c.toNat < 128) :
    String.utf8EncodeChar c = [c.val.toUInt8] := by
  have hval : c.val ≤ 127 := UInt32.le_iff_toNat_le.mpr (Nat.le_of_lt_succ h)
  exact String.utf8EncodeChar_eq_singleton (Char.utf8Size_eq_one_iff.mpr hval)

/-- No ASCII character but the dot is encoded with its byte. -/
theorem dot_notMem_utf8EncodeChar {c : Char} (h : c.toNat < 128) (hne : c ≠ '.') :
    46 ∉ String.utf8EncodeChar c := by
  rw [utf8EncodeChar_of_lt h, List.mem_singleton]
  intro hbyte
  apply hne
  have hnat : (46 : UInt8).toNat = c.val.toUInt8.toNat := congrArg UInt8.toNat hbyte
  rw [UInt32.toNat_toUInt8] at hnat
  have hcode : c.toNat = 46 := by
    have : c.toNat % 256 = 46 := hnat.symm
    omega
  exact Char.ext (UInt32.toNat_inj.mp hcode)

theorem isDigit_lt {c : Char} (h : c.isDigit = true) : c.toNat < 128 :=
  Nat.lt_of_le_of_lt (Char.isDigit_iff_toNat.mp h).2 (by decide)

/-- A decimal rendering has no dot. -/
theorem dot_notMem_timestamp (timestamp : ℤ) : 46 ∉ encode (toString timestamp) := by
  have hdigit : ∀ c : Char, c.isDigit = true → 46 ∉ String.utf8EncodeChar c := by
    intro c hc
    refine dot_notMem_utf8EncodeChar (isDigit_lt hc) ?_
    rintro rfl
    cases hc
  rw [encode_eq, List.mem_flatMap, toList_toString]
  rintro ⟨c, hc, hdot⟩
  split at hc
  · exact hdigit c (isDigit_of_mem_repr c hc) hdot
  · rcases List.mem_cons.mp hc with rfl | hc
    · exact dot_notMem_utf8EncodeChar (by decide) (by decide) hdot
    · exact hdigit c (isDigit_of_mem_repr c hc) hdot

/-! ## The framing -/

/-- A list splits in one way only at the first occurrence of a separator. -/
theorem append_separator_inj {α : Type*} {x : α} {l l' r r' : List α} (hl : x ∉ l) (hl' : x ∉ l')
    (h : l ++ x :: r = l' ++ x :: r') : l = l' ∧ r = r' := by
  induction l generalizing l' with
  | nil =>
    cases l' with
    | nil => exact ⟨rfl, List.tail_eq_of_cons_eq h⟩
    | cons y l' => exact absurd (List.head_eq_of_cons_eq h ▸ List.mem_cons_self) hl'
  | cons y l ih =>
    cases l' with
    | nil => exact absurd (List.head_eq_of_cons_eq h ▸ List.mem_cons_self) hl
    | cons z l' =>
      obtain ⟨rfl, hrest⟩ := List.cons.inj h
      obtain ⟨rfl, hr⟩ := ih (List.not_mem_of_not_mem_cons hl) (List.not_mem_of_not_mem_cons hl')
        hrest
      exact ⟨rfl, hr⟩

/-- Equal messages are of one timestamp and one body. -/
theorem signedMessage_inj {timestamp timestamp' : ℤ} {body body' : List UInt8}
    (h : signedMessage timestamp body = signedMessage timestamp' body') :
    timestamp = timestamp' ∧ body = body' := by
  rw [signedMessage, signedMessage, encode_dot, encode_dot, List.append_assoc,
    List.append_assoc] at h
  obtain ⟨htext, hbody⟩ := append_separator_inj (dot_notMem_timestamp timestamp)
    (dot_notMem_timestamp timestamp') h
  -- the rendering is inverted by reading it
  have hread : pyInt (toString timestamp) = pyInt (toString timestamp') :=
    congrArg pyInt (encode_injective htext)
  rw [pyInt_toString, pyInt_toString] at hread
  exact ⟨Option.some.inj hread, hbody⟩

/-! ## Verification -/

/-- `hmac.compare_digest(a, b)` of two strings: it takes ASCII only. -/
def compareDigest (a b : String) : Except Exc Bool :=
  if (a.toList ++ b.toList).all fun c => decide (c.toNat < 128) then .ok (a == b)
  else .error (.foreign "TypeError")

/-- `verify(secret, timestamp, body, signature)`. -/
def verify (hexdigest : List UInt8 → List UInt8 → String) (secret timestamp : String)
    (body : List UInt8) (signature : String) : Except Exc Bool :=
  match pyInt timestamp with
  | none => .error (.foreign "ValueError")
  | some timestamp => compareDigest (sign hexdigest secret timestamp body) signature

/-- What is taken for granted of a keyed digest: under every key, no two messages have one digest,
and a digest is written in hexadecimal. -/
structure KeyedDigest (hexdigest : List UInt8 → List UInt8 → String) : Prop where
  injective : ∀ key, Function.Injective (hexdigest key)
  hexadecimal : ∀ key message, ∀ c ∈ (hexdigest key message).toList,
    c.isDigit = true ∨ c ∈ "abcdef".toList

namespace KeyedDigest

variable {hexdigest : List UInt8 → List UInt8 → String}

/-- Signatures are compared, not refused. -/
theorem compareDigest_sign (h : KeyedDigest hexdigest) (secret : String) (timestamp timestamp' : ℤ)
    (body body' : List UInt8) :
    compareDigest (sign hexdigest secret timestamp' body') (sign hexdigest secret timestamp body) =
      .ok (sign hexdigest secret timestamp' body' == sign hexdigest secret timestamp body) := by
  have hscheme : ("sha256=".toList.all fun c => decide (c.toNat < 128)) = true := by decide
  have hletters : ("abcdef".toList.all fun c => decide (c.toNat < 128)) = true := by decide
  have hsign : ∀ timestamp body, ∀ c ∈ (sign hexdigest secret timestamp body).toList,
      c.toNat < 128 := by
    intro timestamp body c hc
    rw [sign, String.toList_append, List.mem_append] at hc
    rcases hc with hc | hc
    · exact of_decide_eq_true (List.all_eq_true.mp hscheme c hc)
    · rcases h.hexadecimal _ _ c hc with hdigit | hletter
      · exact isDigit_lt hdigit
      · exact of_decide_eq_true (List.all_eq_true.mp hletters c hletter)
  rw [compareDigest, if_pos]
  rw [List.all_eq_true]
  intro c hc
  rcases List.mem_append.mp hc with hc | hc
  · exact decide_eq_true (hsign timestamp' body' c hc)
  · exact decide_eq_true (hsign timestamp body c hc)

/-- **A signature is of one timestamp and one body.** -/
theorem verify_sign_iff (h : KeyedDigest hexdigest) (secret : String) (timestamp : ℤ)
    (body : List UInt8) (timestamp' : String) (body' : List UInt8) :
    verify hexdigest secret timestamp' body' (sign hexdigest secret timestamp body) = .ok true ↔
      pyInt timestamp' = some timestamp ∧ body' = body := by
  rw [verify]
  cases hread : pyInt timestamp' with
  | none => exact iff_of_false nofun nofun
  | some read =>
    simp only [h.compareDigest_sign, Except.ok.injEq, beq_iff_eq, Option.some.injEq]
    refine ⟨?_, ?_⟩
    · intro hsame
      have hdigest := (String.append_right_inj _).mp hsame
      exact signedMessage_inj (h.injective _ hdigest)
    · rintro ⟨rfl, rfl⟩
      rfl

/-- The headers of a POST verify against its body. -/
theorem verify_postFor (h : KeyedDigest hexdigest) {S : Effects} (service : WebhookService S)
    (hservice : service.hexdigest = hexdigest) (url : String) (body : List UInt8)
    (timestamp : ℤ) :
    ∃ text signature,
      lookup "X-Signature-Timestamp" (service.postFor url body timestamp).headers = some text ∧
      lookup "X-Signature" (service.postFor url body timestamp).headers = some signature ∧
      verify hexdigest service.secret text (service.postFor url body timestamp).content signature =
        .ok true := by
  subst hservice
  refine ⟨toString timestamp, sign service.hexdigest service.secret timestamp body, rfl, rfl, ?_⟩
  exact (h.verify_sign_iff _ _ _ _ _).mpr ⟨pyInt_toString timestamp, rfl⟩

end KeyedDigest

/-- **Signatures bind**: one verifies with a timestamp and a body exactly if it was made for that
number and that body; and every POST of a delivery, whatever the answers before it, carries the
same body under headers that verify. -/
theorem signatures_bind (env : Environment) (h : KeyedDigest env.hexdigest) :
    (∀ secret timestamp body timestamp' body',
      verify env.hexdigest secret timestamp' body' (sign env.hexdigest secret timestamp body) =
        .ok true ↔ pyInt timestamp' = some timestamp ∧ body' = body) ∧
    ∀ settings url payload,
      ((webhookService env settings).deliver url payload).run.Only fun op =>
        ∀ post, op = Op.callback post → post.content = encode (env.dumpJson payload) ∧
          ∃ timestamp signature,
            lookup "X-Signature-Timestamp" post.headers = some timestamp ∧
            lookup "X-Signature" post.headers = some signature ∧
            verify env.hexdigest settings.webhookSigningSecret timestamp post.content signature =
              .ok true := by
  refine ⟨h.verify_sign_iff, fun settings url payload => ?_⟩
  refine (deliver_only env settings url payload).mono ?_
  rintro op hop post rfl
  cases hop with
  | waits hop => cases hop
  | callback timestamp =>
    exact ⟨rfl, h.verify_postFor (webhookService env settings) rfl url _ timestamp⟩

/-- A digest longer than any of SHA-256. -/
def longDigest (message : List UInt8) : List Char :=
  List.replicate 65 '0' ++ Nat.toDigits 10 (Encodable.encode (message.map UInt8.toNat))

/-- A digest that is HMAC-SHA256 on one message, and longer on every other. -/
def oneDigest (key message : List UInt8) : String :=
  if key = encode "whsec" ∧ message = encode "1700000000.9.8" then
    "5cddcd021ca1edc4991f076fb47663256682cffa038dede144f2af241e6743e2"
  else String.ofList (longDigest message)

theorem longDigest_injective : Function.Injective longDigest := by
  intro message message' h
  have hdigits := List.append_cancel_left h
  have hcode := congrArg (fun chars => Nat.ofDigitChars 10 chars 0) hdigits
  simp only [Nat.ofDigitChars_ten_toDigits] at hcode
  exact List.map_injective_iff.mpr (fun _ _ => UInt8.toNat_inj.mp)
    (Encodable.encode_injective hcode)

theorem oneDigest_keyedDigest : KeyedDigest oneDigest where
  injective key := by
    have hlong : ∀ message, String.ofList (longDigest message) ≠
        "5cddcd021ca1edc4991f076fb47663256682cffa038dede144f2af241e6743e2" := by
      intro message h
      have hlength := congrArg (List.length ∘ String.toList) h
      simp only [Function.comp_apply, String.toList_ofList, longDigest, List.length_append,
        List.length_replicate] at hlength
      have hreal : 64 =
          "5cddcd021ca1edc4991f076fb47663256682cffa038dede144f2af241e6743e2".toList.length := by
        decide
      omega
    intro message message' h
    unfold oneDigest at h
    split at h
    · next hreal =>
      split at h
      · next hreal' => exact hreal.2.trans hreal'.2.symm
      · exact absurd h.symm (hlong message')
    · split at h
      · exact absurd h (hlong message)
      · exact longDigest_injective (String.ofList_injective h)
  hexadecimal key message c hc := by
    rw [oneDigest] at hc
    split at hc
    · have hreal : ("5cddcd021ca1edc4991f076fb47663256682cffa038dede144f2af241e6743e2".toList.all
          fun c => c.isDigit || "abcdef".toList.elem c) = true := by decide
      have hc' := List.all_eq_true.mp hreal c hc
      rwa [Bool.or_eq_true, List.elem_iff] at hc'
    · rw [String.toList_ofList, longDigest, List.mem_append] at hc
      rcases hc with hc | hc
      · obtain rfl := List.eq_of_mem_replicate hc
        exact .inl (by decide)
      · exact .inl (isDigit_of_mem_repr c hc)

/-- A signed body is verified with any text of its timestamp. -/
theorem signatures_bind_signed :
    sign oneDigest "whsec" 1700000000 (encode "9.8") =
      "sha256=5cddcd021ca1edc4991f076fb47663256682cffa038dede144f2af241e6743e2" ∧
    verify oneDigest "whsec" " 1_700_000_000" (encode "9.8")
      (sign oneDigest "whsec" 1700000000 (encode "9.8")) = .ok true := by
  have hmessage : signedMessage 1700000000 (encode "9.8") = encode "1700000000.9.8" := by
    rw [signedMessage, ← encode_append]
    congr 1
  refine ⟨?_, ?_⟩
  · rw [sign, oneDigest, if_pos ⟨rfl, hmessage⟩]
    decide
  · have hbind := (signatures_bind { Environment.sample with hexdigest := oneDigest }
      oneDigest_keyedDigest).1
    exact (hbind "whsec" 1700000000 (encode "9.8") " 1_700_000_000" (encode "9.8")).mpr
      ⟨by decide, rfl⟩

end PrdApiWrapper
