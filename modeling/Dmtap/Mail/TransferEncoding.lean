import Dmtap.Mail.Multipart

/-! Content-Transfer-Encoding, as IMAP reads it and as the parsed message does. They find the same
header and the same body, and differ on base64 that does not decode: one drops it. -/
namespace Dmtap.Mail
open Lib

section Decoders

/-- Quoted-printable: `=XX` is a byte, `=` in front of a line end joins the lines, and any other
`=` stands for itself. -/
def qpDecode : Bytes → Bytes
  | [] => []
  | b :: body =>
    if b ≠ 61 then b :: qpDecode body
    else
      match body with
      | 13 :: 10 :: rest => qpDecode rest
      | 10 :: rest => qpDecode rest
      | h :: l :: rest =>
        match hexVal h, hexVal l with
        | some h, some l => UInt8.ofNat (h * 16 + l) :: qpDecode rest
        | _, _ => b :: qpDecode (h :: l :: rest)
      | body => b :: qpDecode body

def decodeTransferEncoding (body : Bytes) (encoding : String) : Bytes :=
  let encoding := (trim encoding).toLower
  if encoding = "base64" then (base64Decode (fromUtf8Lossy body)).getD body
  else if encoding = "quoted-printable" then qpDecode body
  else body

/-- The same coding, read a second time. -/
def decodeQuotedPrintable : Bytes → Bytes
  | [] => []
  | 61 :: 13 :: 10 :: body => decodeQuotedPrintable body
  | 61 :: 10 :: body => decodeQuotedPrintable body
  | 61 :: hi :: lo :: body =>
    if (hexVal hi).isSome && (hexVal lo).isSome then
      UInt8.ofNat ((hexVal hi).getD 0 * 16 + (hexVal lo).getD 0) :: decodeQuotedPrintable body
    else 61 :: decodeQuotedPrintable (hi :: lo :: body)
  | b :: body => b :: decodeQuotedPrintable body

/-- The decoded bytes of the part under a path, or of the whole body. -/
def extractBinary (raw : Bytes) (path : List ℕ) : Bytes :=
  match if path.isEmpty then some raw else extractPart raw path with
  | none => []
  | some segment =>
    let cte := ((headerVal (headersOnly segment) "Content-Transfer-Encoding").map fun v =>
      (trim v).toLower).getD ""
    let body := segment.drop (bodyOffset segment)
    if cte = "base64" then (base64Decode (fromUtf8Lossy body)).getD []
    else if cte = "quoted-printable" then decodeQuotedPrintable body
    else body

/-- The encoding a parsed message names, or the one it has when it names none. -/
def ParsedMessage.transferEncoding (p : ParsedMessage) : String :=
  (p.header "Content-Transfer-Encoding").getD "7bit"

/-- The text of a body as it is shown, and whether it is not a faithful reading of the bytes. -/
def ParsedMessage.decodedBodyText (p : ParsedMessage) : String × Bool :=
  let raw := decodeTransferEncoding p.body p.transferEncoding
  let (_, _, params) := contentType p.headers
  decodeCharset raw (((params.find? fun kv => kv.1 = "charset").map Prod.snd).getD "")

example : qpDecode (utf8 "a=3D=\r\nb=4=") = utf8 "a=b=4=" := by decide

end Decoders

section QuotedPrintable

/-- What a `=` that no line end follows stands for. -/
theorem qpDecode_escape {hi lo : UInt8} (hcrlf : hi = 13 → lo ≠ 10) (hlf : hi ≠ 10) (body : Bytes) :
    qpDecode (61 :: hi :: lo :: body) =
      if (hexVal hi).isSome && (hexVal lo).isSome then
        UInt8.ofNat ((hexVal hi).getD 0 * 16 + (hexVal lo).getD 0) :: qpDecode body
      else 61 :: qpDecode (hi :: lo :: body) := by
  rw [qpDecode, if_neg (by simp)]
  · cases hexVal hi with
    | none => rfl
    | some h =>
      cases hexVal lo with
      | none => rfl
      | some l => rfl
  · exact hcrlf
  · exact hlf

theorem qpDecode_other {b : UInt8} {body : Bytes} (hcrlf : ∀ rest, b = 61 → body ≠ 13 :: 10 :: rest)
    (hlf : ∀ rest, b = 61 → body ≠ 10 :: rest) (hescape : ∀ h l rest, b = 61 → body ≠ h :: l :: rest) :
    qpDecode (b :: body) = b :: qpDecode body := by
  by_cases hb : b = 61
  · rw [qpDecode, if_neg (by simpa using hb)]
    · exact fun rest => hcrlf rest hb
    · exact fun rest => hlf rest hb
    · exact fun h l rest => hescape h l rest hb
  · conv_lhs => unfold qpDecode
    exact if_pos hb

theorem decodeQuotedPrintable_eq (body : Bytes) : decodeQuotedPrintable body = qpDecode body := by
  induction body using decodeQuotedPrintable.induct with
  | case1 => rfl
  | case2 body ih => exact ih
  | case3 body ih => exact ih
  | case4 hi lo body hcrlf hlf hhex ih =>
    rw [decodeQuotedPrintable, if_pos hhex, ih, qpDecode_escape hcrlf hlf, if_pos hhex]
    · exact hcrlf
    · exact hlf
  | case5 hi lo body hcrlf hlf hhex ih =>
    rw [decodeQuotedPrintable, if_neg hhex, ih, qpDecode_escape hcrlf hlf, if_neg hhex]
    · exact hcrlf
    · exact hlf
  | case6 b body hcrlf hlf hescape ih =>
    rw [decodeQuotedPrintable, ih, qpDecode_other hcrlf hlf hescape]
    · exact hcrlf
    · exact hlf
    · exact hescape

end QuotedPrintable

section Base64

/-- What a base64 decoder reads or passes over. -/
def isBase64Byte (b : UInt8) : Bool := b == 61 || isAsciiWhitespace b || (base64Value b).isSome

theorem isSome_base64Loop_iff (bits nbits : ℕ) (input : Bytes) :
    (base64Loop bits nbits input).isSome = true ↔ ∀ b ∈ input, isBase64Byte b = true := by
  induction input generalizing bits nbits with
  | nil => simp [base64Loop]
  | cons b input ih =>
    rw [List.forall_mem_cons, base64Loop]
    by_cases hskip : (b = 61 || isAsciiWhitespace b) = true
    · have hb : isBase64Byte b = true := by
        rw [isBase64Byte, Bool.or_eq_true]
        exact .inl (by simpa using hskip)
      rw [if_pos hskip, ih]
      simp [hb]
    · have hb : isBase64Byte b = (base64Value b).isSome := by
        have hno : (b == 61 || isAsciiWhitespace b) = false := by simpa using hskip
        rw [isBase64Byte, hno, Bool.false_or]
      rw [if_neg hskip, hb]
      cases hvalue : base64Value b with
      | none => simp
      | some v =>
        dsimp only
        split
        · rw [Option.isSome_map, ih]
          simp
        · rw [ih]
          simp

theorem isBase64Byte_small {b : UInt8} (h : isBase64Byte b = true) : b.toNat < 128 := by
  revert h
  revert b
  decide +kernel

theorem large_ofNat {n : ℕ} (hvalid : n.isValidChar) (hn : 128 ≤ n) : 128 ≤ (Char.ofNat n).toNat := by
  unfold Char.ofNat
  rw [dif_pos hvalid]
  exact hn

/-- The second bytes keep a sequence out of the surrogates and within the range of characters. -/
theorem isSecond_bounds {b₀ b₁ : UInt8} (h : isSecond b₀ b₁ = true) :
    128 ≤ b₁.toNat ∧ b₁.toNat ≤ 191 ∧ (b₀.toNat = 224 → 160 ≤ b₁.toNat) ∧
      (b₀.toNat = 237 → b₁.toNat ≤ 159) ∧ (b₀.toNat = 240 → 144 ≤ b₁.toNat) ∧
      (b₀.toNat = 244 → b₁.toNat ≤ 143) := by
  unfold isSecond isContinuation at h
  split_ifs at h with h₁ h₂ h₃ h₄ <;>
    simp only [← UInt8.toNat_inj, UInt8.le_iff_toNat_le, Bool.and_eq_true, decide_eq_true_eq,
      UInt8.reduceToNat] at * <;> omega

theorem large_two {b₀ : UInt8} (h₀ : 0xC2 ≤ b₀ ∧ b₀ ≤ 0xDF) (b₁ : UInt8) :
    128 ≤ (Char.ofNat (b₀.toNat % 32 * 64 + b₁.toNat % 64)).toNat := by
  simp only [UInt8.le_iff_toNat_le, UInt8.reduceToNat] at h₀
  exact large_ofNat (.inl (by omega)) (by omega)

theorem large_three {b₀ b₁ : UInt8} (h₀ : 0xE0 ≤ b₀ ∧ b₀ ≤ 0xEF) (h₁ : isSecond b₀ b₁ = true)
    (b₂ : UInt8) :
    128 ≤ (Char.ofNat ((b₀.toNat % 16 * 64 + b₁.toNat % 64) * 64 + b₂.toNat % 64)).toNat := by
  obtain ⟨hlo, hhi, he0, hed, -⟩ := isSecond_bounds h₁
  simp only [UInt8.le_iff_toNat_le, UInt8.reduceToNat] at h₀
  refine large_ofNat ?_ (by omega)
  unfold Nat.isValidChar
  omega

theorem large_four {b₀ b₁ : UInt8} (h₀ : 0xF0 ≤ b₀ ∧ b₀ ≤ 0xF4) (h₁ : isSecond b₀ b₁ = true)
    (b₂ b₃ : UInt8) :
    128 ≤ (Char.ofNat (((b₀.toNat % 8 * 64 + b₁.toNat % 64) * 64 + b₂.toNat % 64) * 64 +
      b₃.toNat % 64)).toNat := by
  obtain ⟨hlo, hhi, -, -, hf0, hf4⟩ := isSecond_bounds h₁
  simp only [UInt8.le_iff_toNat_le, UInt8.reduceToNat] at h₀
  refine large_ofNat ?_ (by omega)
  unfold Nat.isValidChar
  omega

theorem large_ite {c : Prop} [Decidable c] {x y : Char × ℕ} (hx : c → 128 ≤ x.1.toNat)
    (hy : 128 ≤ y.1.toNat) : 128 ≤ (if c then x else y).1.toNat := by
  split_ifs with h
  · exact hx h
  · exact hy

/-- A byte outside ASCII starts no ASCII character: what is not UTF-8 is replaced. -/
theorem large_decodeLossy {b₀ : UInt8} (h : 128 ≤ b₀.toNat) (rest : Bytes) :
    128 ≤ (decodeLossy b₀ rest).1.toNat := by
  have hreplacement : 128 ≤ (Char.ofNat 0xFFFD).toNat := by decide
  have hascii : ¬ b₀ < 0x80 := by
    rw [UInt8.lt_iff_toNat_lt]
    exact Nat.not_lt.mpr h
  unfold decodeLossy
  dsimp only
  rw [if_neg hascii]
  simp only [Bool.and_eq_true, decide_eq_true_eq]
  split
  · rename_i hlead
    cases rest with
    | nil => exact hreplacement
    | cons b₁ rest => exact large_ite (fun _ => large_two hlead b₁) hreplacement
  split
  · rename_i hlead
    cases rest with
    | nil => exact hreplacement
    | cons b₁ rest =>
      refine large_ite (fun h₁ => ?_) hreplacement
      cases rest with
      | nil => exact hreplacement
      | cons b₂ rest => exact large_ite (fun _ => large_three hlead h₁ b₂) hreplacement
  split
  · rename_i hlead
    cases rest with
    | nil => exact hreplacement
    | cons b₁ rest =>
      refine large_ite (fun h₁ => ?_) hreplacement
      cases rest with
      | nil => exact hreplacement
      | cons b₂ rest =>
        refine large_ite (fun _ => ?_) hreplacement
        cases rest with
        | nil => exact hreplacement
        | cons b₃ rest => exact large_ite (fun _ => large_four hlead h₁ b₂ b₃) hreplacement
  · exact hreplacement

theorem isBase64Byte_of_large {b : UInt8} (h : 128 ≤ b.toNat) : isBase64Byte b = false := by
  cases hb : isBase64Byte b with
  | false => rfl
  | true => exact absurd (isBase64Byte_small hb) (Nat.not_lt.mpr h)

/-- A lossy reading shows bytes that are not base64 as characters that are not. By induction on the
bytes, up to the first that is not ASCII. -/
theorem forall_lossyChars_iff (body : Bytes) {fuel : ℕ} (hfuel : body.length ≤ fuel) :
    (∀ b ∈ (lossyChars fuel body).flatMap String.utf8EncodeChar, isBase64Byte b = true) ↔
      ∀ b ∈ body, isBase64Byte b = true := by
  induction body generalizing fuel with
  | nil => cases fuel <;> simp [lossyChars]
  | cons b body ih =>
    obtain ⟨fuel, rfl⟩ := Nat.exists_eq_add_one_of_ne_zero (Nat.ne_zero_of_lt hfuel)
    have hrest := ih (Nat.le_of_succ_le_succ hfuel)
    rw [lossyChars, List.flatMap_cons]
    by_cases hb : b.toNat < 128
    · have hfirst : decodeLossy b body = (Char.ofNat b.toNat, 1) := by
        unfold decodeLossy
        exact if_pos (UInt8.lt_iff_toNat_lt.mpr hb)
      have hchar : String.utf8EncodeChar (Char.ofNat b.toNat) = [b] := by
        have hascii : (Char.ofNat b.toNat).toNat < 128 := by
          rw [toNat_ofNat_byte]
          exact hb
        rw [keepsAscii_utf8.ascii _ hascii, toNat_ofNat_byte, UInt8.ofNat_toNat]
      rw [hfirst, hchar, Nat.sub_self, List.drop_zero, List.singleton_append, List.forall_mem_cons,
        List.forall_mem_cons, hrest]
    · have hlarge := Nat.le_of_not_lt hb
      have hno : ¬ isBase64Byte b = true := by simp [isBase64Byte_of_large hlarge]
      have hother := keepsAscii_utf8.other _ (large_decodeLossy hlarge body)
      obtain ⟨x, bytes, hbytes⟩ :=
        List.exists_cons_of_ne_nil (keepsAscii_utf8.ne_nil (decodeLossy b body).1)
      have hx : ¬ isBase64Byte x = true := by
        rw [isBase64Byte_of_large (hother x (by rw [hbytes]; exact List.mem_cons_self))]
        exact Bool.false_ne_true
      rw [hbytes, List.cons_append]
      constructor
      · intro hall
        exact absurd (hall x List.mem_cons_self) hx
      · intro hall
        exact absurd (hall b List.mem_cons_self) hno

/-- A body decodes as base64 when it has no byte that is foreign to it. -/
theorem isSome_base64Decode_iff (body : Bytes) :
    (base64Decode (fromUtf8Lossy body)).isSome = true ↔ ∀ b ∈ body, isBase64Byte b = true := by
  unfold base64Decode fromUtf8Lossy
  rw [utf8_ofList, isSome_base64Loop_iff, forall_lossyChars_iff body (Nat.le_refl _)]

end Base64

section Agreement

theorem drop_bodyOffset (raw : Bytes) : raw.drop (bodyOffset raw) = (ParsedMessage.parse raw).body := by
  rw [ParsedMessage.body_parse, splitHeaders, bodyOffset_eq]
  cases hsep : separator raw with
  | none => simp
  | some s =>
    obtain ⟨front, blank, rest, -, rfl, rfl⟩ := aroundBlank_separator hsep
    simp

/-- What the two readers do with the same header and the same body. -/
theorem extractBinary_nil (raw : Bytes) :
    extractBinary raw [] =
      let body := (ParsedMessage.parse raw).body
      let encoding := (trim (ParsedMessage.parse raw).transferEncoding).toLower
      if encoding = "base64" then (base64Decode (fromUtf8Lossy body)).getD []
      else if encoding = "quoted-printable" then qpDecode body
      else body := by
  have hheader : headerVal (headersOnly raw) "Content-Transfer-Encoding" =
      (ParsedMessage.parse raw).header "Content-Transfer-Encoding" := by
    rw [headersOnly_eq]
    rfl
  unfold extractBinary ParsedMessage.transferEncoding
  simp only [List.isEmpty_nil, if_true]
  rw [hheader, drop_bodyOffset, decodeQuotedPrintable_eq]
  cases (ParsedMessage.parse raw).header "Content-Transfer-Encoding" with
  | some v => rfl
  | none =>
    have hdefault : (trim "7bit").toLower = "7bit" := toLower_of_toList (by decide)
    simp only [Option.map_none, Option.getD_none, hdefault]
    rfl

/-- The quoted-printable decoders agree on all bytes. A whole message is decoded alike, and keeps a
body that is not base64, exactly when it is not marked as base64 or its body has no foreign byte. -/
theorem extractBinary_eq_iff (raw : Bytes) :
    (∀ bytes, decodeQuotedPrintable bytes = qpDecode bytes) ∧
    ((extractBinary raw [] = decodeTransferEncoding (ParsedMessage.parse raw).body
          (ParsedMessage.parse raw).transferEncoding ∧
        ((trim (ParsedMessage.parse raw).transferEncoding).toLower = "base64" →
          base64Decode (fromUtf8Lossy (ParsedMessage.parse raw).body) = none →
            extractBinary raw [] = (ParsedMessage.parse raw).body)) ↔
      ((trim (ParsedMessage.parse raw).transferEncoding).toLower = "base64" →
        ∀ b ∈ (ParsedMessage.parse raw).body, isBase64Byte b = true)) := by
  refine ⟨decodeQuotedPrintable_eq, ?_⟩
  generalize hbody : (ParsedMessage.parse raw).body = body
  generalize henc : (trim (ParsedMessage.parse raw).transferEncoding).toLower = encoding
  have hbinary := extractBinary_nil raw
  rw [hbody, henc] at hbinary
  rw [hbinary, decodeTransferEncoding, henc, ← isSome_base64Decode_iff]
  dsimp only
  by_cases h64 : encoding = "base64"
  · rw [if_pos h64, if_pos h64]
    cases hdecode : base64Decode (fromUtf8Lossy body) with
    | some out => simp
    | none =>
      have hne : body ≠ [] := by
        rintro rfl
        cases hdecode
      simp [h64, hne.symm]
  · rw [if_neg h64, if_neg h64]
    simp [h64]

theorem header_of_cons {p : ParsedMessage} {name value : String} {rest : List (String × String)}
    (hheaders : p.headers = (name, value) :: rest) {asked : String}
    (hname : eqIgnoreAsciiCase name asked = true) : p.header asked = some value := by
  rw [ParsedMessage.header, hheaders, List.find?_cons, hname, Option.map_some]

/-- The text `Hi` in base64 with a stray byte behind it. -/
def strayBase64 : Bytes := utf8 "Content-Transfer-Encoding: base64\r\n\r\nSGk=!"

/-- One reader shows nothing of it, the other the body as it is. -/
theorem extractBinary_strayBase64 :
    extractBinary strayBase64 [] = [] ∧
      decodeTransferEncoding (ParsedMessage.parse strayBase64).body
        (ParsedMessage.parse strayBase64).transferEncoding = utf8 "SGk=!" := by
  have hsplit : splitHeaders strayBase64 =
      ([("Content-Transfer-Encoding", "base64")], utf8 "SGk=!") := by decide +kernel
  have hheaders : (ParsedMessage.parse strayBase64).headers =
      [("Content-Transfer-Encoding", "base64")] := congrArg Prod.fst hsplit
  have hbody : (ParsedMessage.parse strayBase64).body = utf8 "SGk=!" := congrArg Prod.snd hsplit
  have hsame : eqIgnoreAsciiCase "Content-Transfer-Encoding" "Content-Transfer-Encoding" = true :=
    eqIgnoreAsciiCase_iff.mpr rfl
  have hencoding : (ParsedMessage.parse strayBase64).transferEncoding = "base64" := by
    rw [ParsedMessage.transferEncoding, header_of_cons hheaders hsame, Option.getD_some]
  have hlower : (trim "base64").toLower = "base64" := toLower_of_toList (by decide)
  have hnone : base64Decode (fromUtf8Lossy (utf8 "SGk=!")) = none := by decide +kernel
  rw [extractBinary_nil, decodeTransferEncoding, hencoding, hbody, hlower]
  dsimp only
  rw [if_pos rfl, if_pos rfl, hnone, Option.getD_none, Option.getD_none]
  exact ⟨rfl, rfl⟩

end Agreement

end Dmtap.Mail
