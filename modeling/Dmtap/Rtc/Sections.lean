import Dmtap.Rtc.Sdp

/-! A scan stays within media sections: what follows a line break and opens a section is scanned as
it would be alone, and a scan that succeeds has checked every media line. -/
namespace Dmtap.Rtc
open Dmtap.Mail

/-- Both results, or the first error. -/
def andThen {ε α : Type} (x y : Except ε (List α)) : Except ε (List α) := do
  let a ← x
  let b ← y
  return a ++ b

section Lines
variable {out out' pre : List TrackDescriptor} {lines : List String}

theorem modifyLastTrack_append (f : TrackDescriptor → TrackDescriptor) (h : out ≠ []) :
    modifyLastTrack f (pre ++ out) = pre ++ modifyLastTrack f out := by
  have hlast := List.getLast?_eq_some_getLast h
  unfold modifyLastTrack
  rw [List.getLast?_append_of_ne_nil pre h, hlast]
  dsimp only
  rw [List.dropLast_append_of_ne_nil h, List.append_assoc]

theorem length_modifyLastTrack (f : TrackDescriptor → TrackDescriptor) :
    (modifyLastTrack f out).length = out.length := by
  unfold modifyLastTrack
  cases h : out.getLast? with
  | none => rfl
  | some cur =>
    have hpos : 0 < out.length := List.length_pos_of_mem (List.mem_of_getLast? h)
    rw [List.length_append, List.length_dropLast, List.length_singleton]
    omega

def isMediaLine (line : String) : Bool := (splitOnce '=' line).map Prod.fst = some "m"

/-- The third field behind the first equals sign. -/
def thirdField (line : String) : Option String :=
  (splitOnce '=' line).bind fun p => (fieldsOf p.2)[2]?

theorem mediaLine_eq_ok {value : String} {t : TrackDescriptor} (h : mediaLine value = .ok t) :
    ∃ proto, (fieldsOf value)[2]? = some proto ∧ protoIsProtected proto = true := by
  unfold mediaLine at h
  split at h
  case h_4 media port proto more heq =>
    split_ifs at h with hproto
    rw [heq]
    exact ⟨proto, rfl, by simpa using hproto⟩
  all_goals cases h

/-- What one line does: a media line adds a track and is protected, and no other line adds one. -/
theorem sdpLine_cases {raw : String} (h : sdpLine out raw = .ok out') :
    (isMediaLine (trimEndMatches raw) = true ∧ out'.length = out.length + 1 ∧
      ∃ proto, thirdField (trimEndMatches raw) = some proto ∧ protoIsProtected proto = true) ∨
    (isMediaLine (trimEndMatches raw) = false ∧ out'.length = out.length) := by
  unfold isMediaLine thirdField
  unfold sdpLine at h
  cases hsplit : splitOnce '=' (trimEndMatches raw) with
  | none =>
    rw [hsplit] at h
    cases h
    exact Or.inr ⟨rfl, rfl⟩
  | some p =>
    obtain ⟨kind, value⟩ := p
    rw [hsplit] at h
    dsimp only at h
    by_cases hm : kind = "m"
    · rw [if_pos hm] at h
      cases hline : mediaLine value with
      | error e =>
        rw [hline] at h
        cases h
      | ok t =>
        rw [hline] at h
        cases h
        refine Or.inl ⟨by simp [hm], ?_, mediaLine_eq_ok hline⟩
        rw [List.length_append, List.length_singleton]
    · rw [if_neg hm] at h
      refine Or.inr ⟨by simp [hm], ?_⟩
      split_ifs at h
      · cases h
        exact length_modifyLastTrack _
      · cases h
        exact length_modifyLastTrack _
      · cases h
        rfl

/-- Tracks in front do not matter to a line once there is a track behind them. -/
theorem sdpLine_append (h : out ≠ []) (raw : String) :
    sdpLine (pre ++ out) raw = (sdpLine out raw).map (pre ++ ·) := by
  unfold sdpLine
  cases splitOnce '=' (trimEndMatches raw) with
  | none => rfl
  | some p =>
    dsimp only
    split_ifs
    · cases mediaLine p.2 with
      | error e => rfl
      | ok t =>
        change Except.ok (pre ++ out ++ [t]) = Except.ok (pre ++ (out ++ [t]))
        rw [List.append_assoc]
    · rw [modifyLastTrack_append _ h]
      rfl
    · rw [modifyLastTrack_append _ h]
      rfl
    · rfl

/-- A media line does not read the tracks in front of it. -/
theorem sdpLine_media {raw : String} (h : isMediaLine (trimEndMatches raw) = true) :
    sdpLine pre raw = (sdpLine [] raw).map (pre ++ ·) := by
  unfold isMediaLine at h
  unfold sdpLine
  cases hsplit : splitOnce '=' (trimEndMatches raw) with
  | none =>
    rw [hsplit] at h
    cases h
  | some p =>
    rw [hsplit] at h
    have hm : p.1 = "m" := by simpa using h
    dsimp only
    rw [if_pos hm, if_pos hm]
    cases mediaLine p.2 with
    | error e => rfl
    | ok t => rfl

/-- By induction on the lines. -/
theorem foldlM_sdpLine_append (h : out ≠ []) :
    lines.foldlM sdpLine (pre ++ out) = (lines.foldlM sdpLine out).map (pre ++ ·) := by
  induction lines generalizing out with
  | nil => rfl
  | cons raw lines ih =>
    rw [List.foldlM_cons, List.foldlM_cons, sdpLine_append h]
    cases hline : sdpLine out raw with
    | error e => rfl
    | ok out' =>
      have hne : out' ≠ [] := by
        have hpos := List.length_pos_of_ne_nil h
        apply List.ne_nil_of_length_pos
        rcases sdpLine_cases hline with ⟨-, hlength, -⟩ | ⟨-, hlength⟩
        · omega
        · omega
      exact ih hne

/-- What a scan leaves: a track for every media line, each of them protected. -/
theorem foldlM_sdpLine_eq_ok (h : lines.foldlM sdpLine out = .ok out') :
    out'.length = out.length + ((lines.map trimEndMatches).filter isMediaLine).length ∧
      ∀ line ∈ lines.map trimEndMatches, isMediaLine line = true →
        ∃ proto, thirdField line = some proto ∧ protoIsProtected proto = true := by
  induction lines generalizing out with
  | nil =>
    cases h
    exact ⟨rfl, fun line hline => nomatch hline⟩
  | cons raw lines ih =>
    rw [List.foldlM_cons] at h
    cases hline : sdpLine out raw with
    | error e =>
      rw [hline] at h
      cases h
    | ok mid =>
      rw [hline] at h
      obtain ⟨hlength, hrest⟩ := ih h
      rw [List.map_cons]
      rcases sdpLine_cases hline with ⟨hmedia, hmid, hproto⟩ | ⟨hother, hmid⟩
      · rw [List.filter_cons_of_pos hmedia, List.length_cons]
        refine ⟨by omega, ?_⟩
        intro line hmem hline
        rcases List.mem_cons.mp hmem with rfl | hmem
        · exact hproto
        · exact hrest line hmem hline
      · rw [List.filter_cons_of_neg (by simp [hother])]
        refine ⟨by omega, ?_⟩
        intro line hmem hline
        rcases List.mem_cons.mp hmem with rfl | hmem
        · rw [hother] at hline
          cases hline
        · exact hrest line hmem hline

end Lines

section Text

/-- Stripping the end keeps the letter of a media line. -/
theorem isMediaLine_trimEndMatches {raw : String} (h : "m=".toList <+: raw.toList) :
    isMediaLine (trimEndMatches raw) = true := by
  obtain ⟨value, hvalue⟩ := h
  have htrim : ∃ value', (trimEndMatches raw).toList = 'm' :: '=' :: value' := by
    unfold trimEndMatches
    rw [← hvalue, String.toList_ofList, List.reverse_append, List.dropWhile_append]
    split_ifs
    · exact ⟨[], rfl⟩
    · rw [List.reverse_append, List.reverse_reverse]
      exact ⟨_, rfl⟩
  obtain ⟨value', htrim⟩ := htrim
  unfold isMediaLine splitOnce
  rw [htrim]
  simp [splitOnceList]

theorem split_append_newline (a b : String) : split '\n' (a ++ "\n" ++ b) = split '\n' a ++ split '\n' b := by
  unfold split
  have hlist : (a ++ "\n" ++ b).toList = a.toList ++ '\n' :: b.toList := by simp
  rw [hlist, List.splitOnP_append_cons _ _ (by simp), List.map_append]

/-- The first line of a text that starts with `m=`. -/
theorem split_media {b : String} (h : "m=".toList <+: b.toList) :
    ∃ raw lines, split '\n' b = raw :: lines ∧ "m=".toList <+: raw.toList := by
  obtain ⟨value, hvalue⟩ := h
  unfold split
  rw [← hvalue]
  cases hsplit : value.splitOnP (· == '\n') with
  | nil => exact absurd hsplit (List.splitOnP_ne_nil _ _)
  | cons first rest =>
    refine ⟨String.ofList ("m=".toList ++ first), rest.map String.ofList, ?_, by simp⟩
    simp [List.splitOnP_cons_eq_if_modifyHead, hsplit]

/-- A text with a needle in capitals somewhere, whatever the case of its own letters. -/
def ContainsIgnoringCase (needle text : String) : Prop :=
  ∃ part, part <:+: text.toList ∧ part.map Char.toUpper = needle.toList

theorem infix_map_iff {needle text : List Char} :
    needle <:+: text.map Char.toUpper ↔ ∃ part, part <:+: text ∧ part.map Char.toUpper = needle := by
  constructor
  · rintro ⟨front, back, heq⟩
    obtain ⟨l, back', rfl, hl, -⟩ := List.append_eq_map_iff.mp heq
    obtain ⟨front', part, rfl, -, hpart⟩ := List.append_eq_map_iff.mp hl.symm
    exact ⟨part, ⟨front', back', rfl⟩, hpart⟩
  · rintro ⟨part, hpart, rfl⟩
    exact hpart.map _

theorem protoIsProtected_iff (proto : String) :
    protoIsProtected proto = true ↔
      ContainsIgnoringCase "SAVP" proto ∨ ContainsIgnoringCase "DTLS/SCTP" proto := by
  unfold protoIsProtected ContainsIgnoringCase
  rw [← infix_map_iff, ← infix_map_iff, Bool.or_eq_true, decide_eq_true_eq, decide_eq_true_eq]

/-- The lines of a body without the white space at their ends. -/
def bodyLines (sdp : String) : List String := (split '\n' sdp).map trimEndMatches

end Text

theorem andThen_eq_bind (x y : Except RtcError (List TrackDescriptor)) :
    andThen x y = (x >>= fun out => y.map (out ++ ·)) := by
  cases x with
  | error e => rfl
  | ok out =>
    cases y with
    | error e => rfl
    | ok more => rfl

/-- A body that opens a section adds to the tracks before it those that it has alone. -/
theorem foldlM_sdpLine_media {b : String} (hb : "m=".toList <+: b.toList)
    (out : List TrackDescriptor) :
    (split '\n' b).foldlM sdpLine out = (sdpScan b).map (out ++ ·) := by
  obtain ⟨raw, lines, hsplit, hraw⟩ := split_media hb
  have hmedia := isMediaLine_trimEndMatches hraw
  unfold sdpScan
  rw [hsplit, List.foldlM_cons, List.foldlM_cons, sdpLine_media hmedia]
  cases hline : sdpLine [] raw with
  | error e => rfl
  | ok first =>
    have hne : first ≠ [] := by
      rcases sdpLine_cases hline with ⟨-, hlength, -⟩ | ⟨hother, -⟩
      · exact List.ne_nil_of_length_pos (by rw [hlength]; exact Nat.succ_pos _)
      · rw [hmedia] at hother
        cases hother
    exact foldlM_sdpLine_append hne

/-- The line break at the end of a body ends its last line. -/
theorem sdpScan_append_newline (front : String) :
    sdpScan (front ++ "\n") = (split '\n' front).foldlM sdpLine [] := by
  have hlast : split '\n' (front ++ "\n") = split '\n' front ++ [""] := by
    have hbreak := split_append_newline front ""
    rwa [String.append_empty] at hbreak
  unfold sdpScan
  rw [hlast, List.foldlM_append]
  exact bind_pure _

/-- A body that opens a section scans behind any whole lines as it scans alone. -/
theorem sdpScan_append {a b : String} (ha : a = "" ∨ "\n".toList <:+ a.toList)
    (hb : "m=".toList <+: b.toList) : sdpScan (a ++ b) = andThen (sdpScan a) (sdpScan b) := by
  rw [andThen_eq_bind]
  rcases ha with rfl | ⟨front, hfront⟩
  · rw [String.empty_append]
    have hempty : sdpScan "" = .ok [] := by decide
    rw [hempty]
    exact foldlM_sdpLine_media hb []
  · have ha : a = String.ofList front ++ "\n" := by
      apply String.toList_inj.mp
      rw [← hfront, String.toList_append, @String.toList_ofList front]
    rw [ha, sdpScan_append_newline, sdpScan, split_append_newline, List.foldlM_append]
    congr 1
    funext out
    exact foldlM_sdpLine_media hb out

/-- Sections are scanned apart, and a scan that succeeds has one track for each media line, all of
them protected. -/
theorem sdpScan_local :
    (∀ a b : String, a = "" ∨ "\n".toList <:+ a.toList → "m=".toList <+: b.toList →
      sdpScan (a ++ b) = andThen (sdpScan a) (sdpScan b)) ∧
    ∀ sdp tracks, sdpScan sdp = .ok tracks →
      tracks.length = ((bodyLines sdp).filter isMediaLine).length ∧
      ∀ line ∈ bodyLines sdp, isMediaLine line = true →
        ∃ proto, thirdField line = some proto ∧
          (ContainsIgnoringCase "SAVP" proto ∨ ContainsIgnoringCase "DTLS/SCTP" proto) := by
  refine ⟨fun a b ha hb => sdpScan_append ha hb, fun sdp tracks h => ?_⟩
  obtain ⟨hlength, hlines⟩ := foldlM_sdpLine_eq_ok h
  rw [List.length_nil, Nat.zero_add] at hlength
  refine ⟨hlength, fun line hmem hline => ?_⟩
  obtain ⟨proto, hthird, hproto⟩ := hlines line hmem hline
  exact ⟨proto, hthird, (protoIsProtected_iff proto).mp hproto⟩

theorem sdpScan_local_two_sections :
    sdpScan ("m=audio 9 RTP/SAVP 0\r\na=mid:0\r\n" ++ "m=video 9 RTP/AVP 96\r\n") =
      andThen (sdpScan "m=audio 9 RTP/SAVP 0\r\na=mid:0\r\n")
        (sdpScan "m=video 9 RTP/AVP 96\r\n") ∧
    ([⟨some "0", .audio, .main, .sendRecv, none⟩] : List TrackDescriptor).length =
      ((bodyLines "m=audio 9 RTP/SAVP 0\r\na=mid:0\r\n").filter isMediaLine).length :=
  ⟨sdpScan_local.1 _ _ (Or.inr (by decide)) (by decide),
    (sdpScan_local.2 _ _ (by decide)).1⟩

end Dmtap.Rtc
