import Dmtap.Mail.Carriage
import Mathlib.Data.List.TakeWhile

/-! Which verdicts of a trust boundary a reader still finds in a stripped header. The stripper
compares a name as it is spelt, and the reader trims white space off it first. -/
namespace Dmtap.Mail
open Lib Mote Cbor

section Names

/-- The name is one of the trust boundary's, in any case. -/
def isTrustBoundary (name : String) : Bool :=
  trustBoundaryHeaders.any fun h => eqIgnoreAsciiCase name h

theorem isTrustBoundary_eq (name : String) :
    isTrustBoundary name = trustBoundaryHeaders.any fun h =>
      name.toList.map Char.toLower == h.toList.map Char.toLower := by
  rw [isTrustBoundary, Bool.eq_iff_iff, List.any_eq_true, List.any_eq_true]
  refine exists_congr fun h => and_congr_right fun _ => ?_
  rw [eqIgnoreAsciiCase_iff, beq_iff_eq]

theorem toAsciiLower_asciiByte {c : Char} (hc : c.toLower.toNat < 128) :
    c.toNat < 128 ∧ toAsciiLower (asciiByte c) = asciiByte c.toLower := by
  have hascii := toNat_lt_of_toLower hc
  have hall : ∀ n < 128,
      toAsciiLower (asciiByte (Char.ofNat n)) = asciiByte (Char.ofNat n).toLower := by
    decide
  have hlower := hall c.toNat hascii
  rw [Char.ofNat_toNat] at hlower
  exact ⟨hascii, hlower⟩

/-- A name that differs from an ASCII one only in case has its bytes, but for their case. -/
theorem map_toAsciiLower {s h : String} (heq : eqIgnoreAsciiCase s h = true)
    (hh : ∀ c ∈ h.toList, c.toLower.toNat < 128) :
    (∀ c ∈ s.toList, c.toNat < 128) ∧
      (s.toList.map asciiByte).map toAsciiLower = (h.toList.map asciiByte).map toAsciiLower := by
  have hlower := eqIgnoreAsciiCase_iff.mp heq
  have hs : ∀ c ∈ s.toList, c.toLower.toNat < 128 := by
    intro c hc
    have hmem : c.toLower ∈ h.toList.map Char.toLower := hlower ▸ List.mem_map_of_mem hc
    obtain ⟨d, hd, heq⟩ := List.mem_map.mp hmem
    exact heq ▸ hh d hd
  have hmap : ∀ cs : List Char, (∀ c ∈ cs, c.toLower.toNat < 128) →
      (cs.map asciiByte).map toAsciiLower = (cs.map Char.toLower).map asciiByte := by
    intro cs hcs
    rw [List.map_map, List.map_map]
    exact List.map_congr_left fun c hc => (toAsciiLower_asciiByte (hcs c hc)).2
  exact ⟨fun c hc => (toAsciiLower_asciiByte (hs c hc)).1, by rw [hmap _ hs, hmap _ hh, hlower]⟩

theorem trustBoundaryHeaders_ascii : ∀ h ∈ trustBoundaryHeaders,
    (h.toList.all fun c => c.toLower.toNat < 128 && c.toNat < 128) = true ∧
      (utf8 h).map toAsciiLower = utf8 h ∧ (utf8 h).head? = some 97 := by
  decide

/-- A decoded name in ASCII has the bytes of the line. The empty one may stand for bytes that are
not UTF-8. -/
theorem nameBytes_of_decode {valid : Bool} {line : Bytes}
    (hne : decode valid (nameBytes line) ≠ "")
    (hs : ∀ c ∈ (decode valid (nameBytes line)).toList, c.toNat < 128) :
    nameBytes line = (decode valid (nameBytes line)).toList.map asciiByte := by
  cases valid with
  | true =>
    cases hdecode : fromUtf8 (nameBytes line) with
    | none =>
      have hempty : decode true (nameBytes line) = "" := by
        rw [decode, if_pos rfl, hdecode]
        rfl
      exact absurd hempty hne
    | some s =>
      have hds : decode true (nameBytes line) = s := by
        rw [decode, if_pos rfl, hdecode]
        rfl
      rw [hds] at hs
      rw [hds, ← utf8_ascii hs, String.ofList_toList]
      exact (utf8_of_fromUtf8 hdecode).symm
  | false =>
    rw [decode, if_neg Bool.false_ne_true, latin1Text, String.toList_ofList, List.map_map]
    refine (List.map_id _).symm.trans (List.map_congr_left fun b _ => ?_)
    rw [Function.comp_apply, asciiByte, toNat_ofNat_byte, UInt8.ofNat_toNat, id]

/-- A line whose name starts with a letter continues no other. -/
theorem isContinuationLine_of_head {line : Bytes}
    (h : ((nameBytes line).map toAsciiLower).head? = some 97) : isContinuationLine line = false := by
  cases line with
  | nil => rfl
  | cons b line =>
    unfold nameBytes at h
    rw [List.takeWhile_cons] at h
    split at h
    · rw [List.map_cons, List.head?_cons, Option.some.injEq] at h
      have hspace : b ≠ 32 := by
        rintro rfl
        exact absurd h (by decide)
      have htab : b ≠ 9 := by
        rintro rfl
        exact absurd h (by decide)
      simp [isContinuationLine, hspace, htab]
    · exact absurd h (by decide)

/-- A name the reader takes for the trust boundary's without trimming it is spelt as the stripper
expects. -/
theorem namesTrustBoundary_of_decode {valid : Bool} {line : Bytes} (hcolon : 58 ∈ line)
    (h : isTrustBoundary (decode valid (nameBytes line)) = true) :
    namesTrustBoundary line = true ∧ isContinuationLine line = false := by
  obtain ⟨name, hname, heq⟩ := List.any_eq_true.mp h
  obtain ⟨hascii, hlower, hhead⟩ := trustBoundaryHeaders_ascii name hname
  have hall : ∀ c ∈ name.toList, c.toLower.toNat < 128 ∧ c.toNat < 128 := by
    intro c hc
    simpa using List.all_eq_true.mp hascii c hc
  obtain ⟨hs, hmap⟩ := map_toAsciiLower heq fun c hc => (hall c hc).1
  have hutf8 : utf8 name = name.toList.map asciiByte := by
    rw [← utf8_ascii fun c hc => (hall c hc).2, String.ofList_toList]
  have hne : decode valid (nameBytes line) ≠ "" := by
    intro hempty
    rw [hempty, ← hutf8, hlower] at hmap
    rw [← hmap] at hhead
    exact absurd hhead (by decide)
  rw [← nameBytes_of_decode hne hs, ← hutf8] at hmap
  constructor
  · rw [namesTrustBoundary, Bool.and_eq_true, List.contains_iff_mem]
    exact ⟨hcolon, List.any_eq_true.mpr ⟨name, hname, beq_iff_eq.mpr hmap⟩⟩
  · refine isContinuationLine_of_head ?_
    rw [hmap, hlower, hhead]

end Names

section Header

/-- The name is a trust boundary's only once white space around it is trimmed. -/
def Padded (valid : Bool) (line : Bytes) : Prop :=
  isTrustBoundary (decode valid (nameBytes line)) = false ∧
    isTrustBoundary (shownName valid line) = true

theorem fieldStart_getElem {lines : List Bytes} {line : Bytes} {i : ℕ} (h : lines[i]? = some line)
    (hline : isContinuationLine line = false) : fieldStart lines i = some line := by
  obtain ⟨hi, rfl⟩ := List.getElem?_eq_some_iff.mp h
  have hsplit := List.take_append_drop i lines
  rw [List.drop_eq_getElem_cons hi] at hsplit
  have hlen : (lines.take i).length = i := List.length_take_of_le hi.le
  have hstart := fieldStart_append (lines.take i) (lines.drop (i + 1)) lines[i]
  rwa [hsplit, hlen, hline, if_neg Bool.false_ne_true] at hstart

/-- A kept line that starts a field is not spelt as the stripper expects. -/
theorem namesTrustBoundary_kept {lines : List Bytes} {line : Bytes} (h : line ∈ keptLines lines)
    (hline : isContinuationLine line = false) : namesTrustBoundary line = false := by
  obtain ⟨⟨l, i⟩, hmem, rfl⟩ := List.mem_map.mp h
  obtain ⟨hzip, hkeep⟩ := List.mem_filter.mp hmem
  have hget : lines[i]? = some l := List.mem_zipIdx_iff_getElem?.mp hzip
  rw [fieldStart_getElem hget hline] at hkeep
  simpa using hkeep

theorem mem_of_mem_fieldStarts {read : Bool} {lines : List Bytes} {line : Bytes}
    (h : line ∈ fieldStarts read lines) : line ∈ lines ∧ 58 ∈ line := by
  induction lines generalizing read with
  | nil => exact absurd h List.not_mem_nil
  | cons l lines ih =>
    unfold fieldStarts at h
    split at h
    · rename_i hstart
      rcases List.mem_cons.mp h with rfl | h
      · rw [startsField, Bool.and_eq_true, List.contains_iff_mem] at hstart
        exact ⟨List.mem_cons_self, hstart.1⟩
      · exact ⟨List.mem_cons_of_mem l (ih h).1, (ih h).2⟩
    · exact ⟨List.mem_cons_of_mem l (ih h).1, (ih h).2⟩

theorem mem_of_mem_headLines {lines : List Bytes} {line : Bytes} (h : line ∈ headLines lines) :
    line ∈ lines := by
  rw [← headLines_append_restLines lines]
  exact List.mem_append_left _ h

/-- A kept line shows a trust boundary's name exactly when the name is padded. -/
theorem shows_iff_padded {lines : List Bytes} {valid : Bool} {line : Bytes}
    (h : line ∈ fieldStarts false (headLines (keptLines lines))) :
    isTrustBoundary (shownName valid line) = true ↔ Padded valid line := by
  obtain ⟨hmem, hcolon⟩ := mem_of_mem_fieldStarts h
  constructor
  · intro hshown
    refine ⟨?_, hshown⟩
    by_contra hdecode
    rw [Bool.not_eq_false] at hdecode
    obtain ⟨hnames, hline⟩ := namesTrustBoundary_of_decode hcolon hdecode
    rw [namesTrustBoundary_kept (mem_of_mem_headLines hmem) hline] at hnames
    exact absurd hnames Bool.false_ne_true
  · exact fun hpadded => hpadded.2

theorem forall_shownNames_iff {lines : List Bytes} :
    (∀ name ∈ shownNames lines, isTrustBoundary name = false) ↔
      ∀ line ∈ fieldStarts false (headLines lines),
        isTrustBoundary (shownName (fromUtf8 (headLines lines).flatten).isSome line) = false := by
  rw [shownNames, List.forall_mem_map]

/-- No kept line that the reader starts a field at has a padded name. -/
def NonePadded (lines : List Bytes) : Prop :=
  ∀ line ∈ fieldStarts false (headLines (keptLines lines)),
    ¬ Padded (fromUtf8 (headLines (keptLines lines)).flatten).isSome line

theorem forall_shownNames_kept_iff (lines : List Bytes) :
    (∀ name ∈ shownNames (keptLines lines), isTrustBoundary name = false) ↔ NonePadded lines := by
  rw [forall_shownNames_iff]
  refine forall₂_congr fun line hline => ?_
  rw [← shows_iff_padded hline, Bool.not_eq_true]

theorem forall_fields_iff {fields : List (String × String)} {names : List String}
    (h : fields.map Prod.fst = names) :
    (∀ field ∈ fields, isTrustBoundary field.1 = false) ↔
      ∀ name ∈ names, isTrustBoundary name = false := by
  rw [← h, List.forall_mem_map]

end Header

section Message

theorem keptLines_concat {front : List Bytes} {line : Bytes}
    (hline : isContinuationLine line = false) (hnames : namesTrustBoundary line = false) :
    keptLines (front ++ [line]) = keptLines front ++ [line] := by
  have hfront : ∀ p ∈ front.zipIdx, fieldStart (front ++ [line]) p.2 = fieldStart front p.2 := by
    intro p hp
    have hlt : p.2 < front.length := by
      have hget := List.mem_zipIdx_iff_getElem?.mp (show (p.1, p.2) ∈ front.zipIdx from hp)
      exact (List.getElem?_eq_some_iff.mp hget).1
    rw [fieldStart, fieldStart, List.take_append_of_le_length hlt]
  have hlast : fieldStart (front ++ [line]) front.length = some line := by
    rw [fieldStart_append, hline, if_neg Bool.false_ne_true]
  unfold keptLines
  rw [List.zipIdx_append, List.filter_append, List.map_append]
  congr 2
  · exact List.filter_congr fun p hp => by rw [hfront p hp]
  · rw [Nat.zero_add, List.zipIdx_singleton, List.filter_cons, hlast, Option.any_some, hnames]
    rfl

theorem blank_kept {blank : Bytes} (h : isBlank blank = true) :
    isContinuationLine blank = false ∧ namesTrustBoundary blank = false ∧ 58 ∉ blank := by
  rcases isBlank_eq_true h with rfl | rfl <;> decide

/-- A message whose body is not empty has its empty line kept. -/
theorem keptLines_header {data : Bytes} (h : (headerAndBody data).2 ≠ []) :
    ∃ front blank, isBlank blank = true ∧
      keptLines (splitInclusive (headerAndBody data).1) = front ++ [blank] := by
  have hlines := isLines_splitInclusive data
  have hsplit := hlines.headerAndBody_flatten
  rw [flatten_splitInclusive] at hsplit
  cases hrest : restLines (splitInclusive data) with
  | nil =>
    rw [hsplit, hrest] at h
    exact absurd rfl h
  | cons blank rest =>
    have hblank := isBlank_of_restLines hrest
    have hheader : IsLines (headLines (splitInclusive data) ++ [blank]) := by
      refine hlines.sublist ?_
      conv_rhs => rw [← headLines_append_restLines (splitInclusive data), hrest]
      exact (List.Sublist.refl _).append (List.singleton_sublist.mpr List.mem_cons_self)
    refine ⟨keptLines (headLines (splitInclusive data)), blank, hblank, ?_⟩
    rw [hsplit, hrest, List.take_succ_cons, List.take_zero, hheader.splitInclusive_flatten]
    exact keptLines_concat (blank_kept hblank).1 (blank_kept hblank).2.1

theorem isLines_keptLines (raw : Bytes) : IsLines (keptLines (splitInclusive raw)) :=
  (isLines_splitInclusive raw).sublist (keptLines_sublist _)

/-- The lines of a message that carries a stripped header. -/
theorem splitInclusive_carried (data : Bytes) :
    splitInclusive (stripTrustBoundaryHeaders (headerAndBody data).1 ++ (headerAndBody data).2) =
      keptLines (splitInclusive (headerAndBody data).1) ++
        splitInclusive (headerAndBody data).2 := by
  have hkept := isLines_keptLines (headerAndBody data).1
  rw [stripTrustBoundaryHeaders_eq]
  by_cases hbody : (headerAndBody data).2 = []
  · rw [hbody, List.append_nil, hkept.splitInclusive_flatten, splitInclusive, List.append_nil]
  · obtain ⟨front, blank, hblank, heq⟩ := keptLines_header hbody
    have hlf : ∃ c : Bytes, blank = c ++ [10] := by
      rcases isBlank_eq_true hblank with rfl | rfl
      · exact ⟨[], rfl⟩
      · exact ⟨[13], rfl⟩
    obtain ⟨c, rfl⟩ := hlf
    have hflat := hkept.splitInclusive_flatten
    rw [heq, List.flatten_append, List.flatten_singleton, ← List.append_assoc] at hflat
    rw [heq, List.flatten_append, List.flatten_singleton, ← List.append_assoc, List.append_assoc,
      List.singleton_append, splitInclusive_append_lf, hflat]

theorem headLines_append {lines : List Bytes} {blank : Bytes} (hmem : blank ∈ lines.tail)
    (hblank : isBlank blank = true) (rest : List Bytes) :
    headLines (lines ++ rest) = headLines lines := by
  cases lines with
  | nil => exact absurd hmem List.not_mem_nil
  | cons line lines =>
    have hnot : (lines.takeWhile (!isBlank ·)).length ≠ lines.length := by
      intro hlen
      rw [← (List.takeWhile_prefix (!isBlank ·)).eq_of_length hlen] at hmem
      have hkeep := List.mem_takeWhile_imp hmem
      rw [hblank] at hkeep
      exact absurd hkeep (by decide)
    rw [List.cons_append, headLines, headLines, List.takeWhile_append, if_neg hnot]

/-- When no field is left in front of the empty line, the reader takes the body's first lines for
the header. None of them shows a trust boundary's name. -/
def BodyShowsNone (kept body : List Bytes) : Prop :=
  kept.length ≤ 1 → ∀ line ∈ fieldStarts false (body.takeWhile (!isBlank ·)),
    isTrustBoundary (shownName (fromUtf8 (headLines (kept ++ body)).flatten).isSome line) = false

theorem madeNames_none (thread : Option Bytes) :
    ∀ name ∈ madeNames thread, isTrustBoundary name = false := by
  intro name hname
  rw [isTrustBoundary_eq]
  revert name
  cases thread with
  | none => decide
  | some _ => 
    rw [madeNames, Option.isSome_some]
    decide

theorem fieldStarts_cons_blank {blank : Bytes} (h : isBlank blank = true) (lines : List Bytes) :
    fieldStarts false (blank :: lines) = fieldStarts false lines := by
  have hno : startsField false blank = false := by
    rcases isBlank_eq_true h with rfl | rfl <;> rfl
  rw [fieldStarts, hno, if_neg Bool.false_ne_true]

/-- The names shown by a message that carries a stripped header. -/
theorem forall_shownNames_carried_iff (data : Bytes) :
    (∀ name ∈ shownNames (keptLines (splitInclusive (headerAndBody data).1) ++
        splitInclusive (headerAndBody data).2), isTrustBoundary name = false) ↔
      NonePadded (splitInclusive (headerAndBody data).1) ∧
        BodyShowsNone (keptLines (splitInclusive (headerAndBody data).1))
          (splitInclusive (headerAndBody data).2) := by
  by_cases hbody : (headerAndBody data).2 = []
  · have hnone : BodyShowsNone (keptLines (splitInclusive (headerAndBody data).1)) [] :=
      fun _ line hline => absurd hline List.not_mem_nil
    rw [hbody, splitInclusive, List.append_nil, forall_shownNames_kept_iff]
    exact (and_iff_left hnone).symm
  obtain ⟨front, blank, hblank, hkept⟩ := keptLines_header hbody
  cases front with
  | nil =>
    have hpadded : NonePadded (splitInclusive (headerAndBody data).1) := by
      intro line hline
      rw [hkept, List.nil_append, headLines, List.takeWhile_nil,
        fieldStarts_cons_blank hblank] at hline
      exact absurd hline List.not_mem_nil
    rw [and_iff_right hpadded, forall_shownNames_iff, hkept]
    have hhead : headLines ([] ++ [blank] ++ splitInclusive (headerAndBody data).2) =
        blank :: (splitInclusive (headerAndBody data).2).takeWhile (!isBlank ·) := rfl
    rw [hhead, fieldStarts_cons_blank hblank, BodyShowsNone, hhead]
    exact ⟨fun h _ => h, fun h => h (Nat.le_refl 1)⟩
  | cons line front =>
    have hmem : blank ∈ (keptLines (splitInclusive (headerAndBody data).1)).tail := by
      rw [hkept]
      exact List.mem_append_right front (List.mem_singleton_self blank)
    have hlong : BodyShowsNone (keptLines (splitInclusive (headerAndBody data).1))
        (splitInclusive (headerAndBody data).2) := by
      intro hlen
      rw [hkept, List.length_append, List.length_cons, List.length_singleton] at hlen
      omega
    rw [and_iff_left hlong, ← forall_shownNames_kept_iff, shownNames, shownNames,
      headLines_append hmem hblank]

end Message

section Forged
variable (blake3 : Bytes → Digest)

theorem names_headersOnly_strip (raw : Bytes) :
    (headersOnly (stripTrustBoundaryHeaders raw)).map Prod.fst =
      shownNames (keptLines (splitInclusive raw)) := by
  rw [stripTrustBoundaryHeaders_eq]
  exact (isLines_keptLines raw).names_headersOnly

theorem rawHeadersExt_carried (data : Bytes) (ts : UInt64) (sender sig : Bytes)
    (expires : Option UInt64) : rawHeadersExt (carried data ts sender sig expires).headers =
      if keptLines (splitInclusive (headerAndBody data).1) = [] then none
      else some (stripTrustBoundaryHeaders (headerAndBody data).1) := by
  have hstrip := stripTrustBoundaryHeaders_eq (headerAndBody data).1
  split
  · rename_i hnil
    rw [hnil, List.flatten_nil] at hstrip
    unfold carried buildMoteDraft
    dsimp only [MoteDraft.payload]
    rw [hstrip]
    rfl
  · rename_i hne
    obtain ⟨line, hline⟩ := List.exists_mem_of_ne_nil _ hne
    have hfull : stripTrustBoundaryHeaders (headerAndBody data).1 ≠ [] := by
      intro hempty
      rw [hstrip, List.flatten_eq_nil_iff] at hempty
      exact (isLines_keptLines _).ne_nil line hline (hempty line hline)
    rw [rawHeadersExt, ext_carried hfull]
    simp

/-- The reader of a submitted message's rendering sees a verdict of the trust boundary exactly
when the block or, for want of a field in front of it, the body shows one. -/
theorem forall_headers_render_iff (data : Bytes) (ts : UInt64) (sender sig : Bytes)
    (expires : Option UInt64) (later : ℕ) :
    (∀ field ∈ (ParsedMessage.parse (renderRfc5322 blake3
        (carried data ts sender sig expires) later)).headers, isTrustBoundary field.1 = false) ↔
      NonePadded (splitInclusive (headerAndBody data).1) ∧
        BodyShowsNone (keptLines (splitInclusive (headerAndBody data).1))
          (splitInclusive (headerAndBody data).2) := by
  have hext := rawHeadersExt_carried data ts sender sig expires
  rw [ParsedMessage.headers_parse]
  by_cases hkept : keptLines (splitInclusive (headerAndBody data).1) = []
  · rw [if_pos hkept] at hext
    have hbody : (headerAndBody data).2 = [] := by
      by_contra hbody
      obtain ⟨front, blank, -, heq⟩ := keptLines_header hbody
      rw [hkept] at heq
      exact List.append_ne_nil_of_right_ne_nil front (List.cons_ne_nil blank []) heq.symm
    rw [forall_fields_iff (splitHeaders_renderRfc5322 blake3 hext later).1, hbody]
    refine iff_of_true (madeNames_none _) ⟨fun line hline => ?_, fun _ line hline => ?_⟩
    · rw [hkept] at hline
      exact absurd hline List.not_mem_nil
    · exact absurd hline List.not_mem_nil
  · rw [if_neg hkept] at hext
    have hbody : (carried data ts sender sig expires).body = (headerAndBody data).2 :=
      body_parse data
    have hrender : renderRfc5322 blake3 (carried data ts sender sig expires) later =
        (splitInclusive (stripTrustBoundaryHeaders (headerAndBody data).1 ++
          (headerAndBody data).2)).flatten := by
      rw [flatten_splitInclusive, renderRfc5322, hext, ← hbody]
    rw [hrender, ← forall_shownNames_carried_iff, ← splitInclusive_carried]
    exact forall_fields_iff (isLines_splitInclusive _).names_splitHeaders

/-- Stripping removes every name of the trust boundary that a reader would see, unless white space
in front of the colon hides it from the stripper; the message behind a block that loses all its
fields shows what its body's first lines show. -/
theorem strip_hides_trustBoundary_iff :
    (∀ raw : Bytes, (∀ field ∈ headersOnly (stripTrustBoundaryHeaders raw),
        isTrustBoundary field.1 = false) ↔ NonePadded (splitInclusive raw)) ∧
    ∀ (data : Bytes) (ts : UInt64) (sender sig : Bytes) (expires : Option UInt64) (later : ℕ),
      (∀ field ∈ (ParsedMessage.parse (renderRfc5322 blake3
          { (buildMoteDraft data ts).payload sender with sig, expires } later)).headers,
        isTrustBoundary field.1 = false) ↔
      NonePadded (splitInclusive (headerAndBody data).1) ∧
        BodyShowsNone (keptLines (splitInclusive (headerAndBody data).1))
          (splitInclusive (headerAndBody data).2) := by
  constructor
  · intro raw
    rw [← forall_shownNames_kept_iff]
    exact forall_fields_iff (names_headersOnly_strip raw)
  · exact forall_headers_render_iff blake3

/-- A forged verdict with a blank in front of its colon. -/
def paddedVerdict : Bytes := utf8 "Authentication-Results : pass\r\n\r\n"

/-- A seal, whose field is stripped, and a forged verdict at the head of the body. -/
def verdictInBody : Bytes := utf8 "ARC-Seal: x\r\n\r\nAuthentication-Results: pass\r\n\r\n"

theorem strip_shows_paddedVerdict :
    (∃ field ∈ headersOnly (stripTrustBoundaryHeaders paddedVerdict),
      isTrustBoundary field.1 = true) ∧
    ∃ field ∈ (ParsedMessage.parse (renderRfc5322 (fun _ => ⟨List.replicate 32 0, rfl⟩)
        { (buildMoteDraft verdictInBody 0).payload [] with sig := [], expires := none } 0)).headers,
      isTrustBoundary field.1 = true := by
  have hname : isTrustBoundary "Authentication-Results" = true := by
    rw [isTrustBoundary_eq]
    decide
  refine ⟨⟨("Authentication-Results", "pass"), ?_, hname⟩,
    ⟨("Authentication-Results", "pass"), ?_, hname⟩⟩
  · decide
  · rw [ParsedMessage.headers_parse]
    decide

end Forged

end Dmtap.Mail
