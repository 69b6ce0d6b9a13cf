import Dmtap.Mail.Imap.FetchReply
import Dmtap.Mail.Imap.SequenceText
import Dmtap.Mail.Lines
import Dmtap.Mail.Refresh
import Dmtap.Mail.Resync

/-! The catch-up after a reconnect, as it is printed. A client reads it line by line, and has the
flags of the mailbox afterwards as long as each of them is printed as an atom that stands for it. -/
namespace Dmtap.Mail.Imap
open Lib

/-- A flag that is read back from the atom it is printed as. -/
def Legible (f : Flag) : Prop := IsBare f.imap ∧ Flag.parse f.imap = f

instance (f : Flag) : Decidable (Legible f) :=
  inferInstanceAs (Decidable (IsBare f.imap ∧ Flag.parse f.imap = f))

section Client

/-- The item behind a name. -/
def valueOf (name : String) : List (Nested Leaf) → Option (Nested Leaf)
  | .leaf (.atom a) :: x :: rest => if a = name then some x else valueOf name rest
  | _ => none

def readNumber : Nested Leaf → Option ℕ
  | .leaf (.atom s) => parseU32 s
  | _ => none

def readFlag : Nested Leaf → Option Flag
  | .leaf (.atom s) => some (Flag.parse s)
  | _ => none

def readFlags : Nested Leaf → Option (List Flag)
  | .list items => items.mapM readFlag
  | .leaf _ => none

/-- The set of a VANISHED (EARLIER) line. -/
def vanishedIn : List (Nested Leaf) → Option SequenceSet
  | [.leaf (.atom star), .leaf (.atom verb), .list [.leaf (.atom tag)], .leaf (.atom set)] =>
    if star = "*" ∧ verb = "VANISHED" ∧ tag = "EARLIER" then SequenceSet.parse set else none
  | _ => none

/-- The UID and the flags of a FETCH line. -/
def fetchedIn : List (Nested Leaf) → Option (ℕ × List Flag)
  | [.leaf (.atom star), .leaf (.atom _), .leaf (.atom verb), .list data] =>
    if star = "*" ∧ verb = "FETCH" then do
      let uid ← (valueOf "UID" data).bind readNumber
      let flags ← (valueOf "FLAGS" data).bind readFlags
      some (uid, flags)
    else none
  | _ => none

/-- What a client does with a line: drop what vanished, set the flags it is told. -/
def hear (known : ℕ → Option (List Flag)) (line : Bytes) (uid : ℕ) : Option (List Flag) :=
  match readReply line with
  | none => known uid
  | some items =>
    match vanishedIn items with
    | some set => if set.contains uid 0 then none else known uid
    | none =>
      match fetchedIn items with
      | some (n, flags) => if n = uid then some flags else known uid
      | none => known uid

/-- What a client knows after it has read a printed catch-up. -/
def catchUp (known : ℕ → Option (List Flag)) (out : Bytes) : ℕ → Option (List Flag) :=
  (splitInclusive out).foldl hear known

end Client

section Printed

theorem isBare_toString (n : ℕ) : IsBare (toString n) := (isAtom_toString n).isBare

/-- Digits, and what stands between them in a set. -/
theorem isAtom_toSequenceSet {uids : List ℕ} (hne : uids ≠ []) : IsAtom (toSequenceSet uids) := by
  have hnonempty : toSequenceSet uids ≠ "" := by
    rw [toSequenceSet_eq]
    exact mt rangesText_eq_empty_iff.mp (runs_ne_nil hne)
  have hchars : AllChars (fun c => c.toNat < 128 ∧ endsAtom (asciiByte c) = false)
      (toSequenceSet uids) := by
    unfold toSequenceSet joinWith
    refine AllChars.intercalate (by unfold AllChars; decide) fun part hpart => ?_
    obtain ⟨r, -, rfl⟩ := List.mem_map.mp hpart
    split_ifs
    · exact (isAtom_toString r.1).2
    · refine AllChars.append (AllChars.append (isAtom_toString r.1).2 ?_) (isAtom_toString r.2).2
      unfold AllChars
      decide
  exact ⟨hnonempty, hchars⟩

theorem shows_vanishedEarlier {uids : List ℕ} (hne : uids ≠ []) :
    Shows (Untagged.wire (.vanishedEarlier uids)) [atomItem "*", atomItem "VANISHED",
      .list [atomItem "EARLIER"], atomItem (toSequenceSet uids)] := by
  have hstar : IsAtom "*" := by decide
  have hverb : IsAtom "VANISHED" := by decide
  have htag : IsAtom "EARLIER" := by decide
  have hset := shows_atom (isAtom_toSequenceSet hne)
  have hline := (shows_atom hstar).words
    ((shows_atom hverb).words ((shows_atom htag).paren.words hset))
  have hall := hline.append shows_crlf (endsAtom_cons _ (by decide))
  have htext : "* VANISHED (EARLIER) " ++ toSequenceSet uids =
      "*" ++ " " ++ ("VANISHED" ++ " " ++ ("(" ++ "EARLIER" ++ ")" ++ " " ++ toSequenceSet uids)) := by
    simp only [← String.append_assoc]
    rfl
  change Shows (utf8 ("* VANISHED (EARLIER) " ++ toSequenceSet uids) ++ crlf) _
  rw [htext]
  rw [List.append_nil] at hall
  exact hall

/-- The items of a FETCH line of the catch-up. -/
def resyncItems (m : Message) : List (Nested Leaf) :=
  [atomItem "UID", numberItem m.uid, atomItem "MODSEQ", .list [numberItem m.modseq],
    atomItem "FLAGS", .list (m.flags.map fun f => atomItem f.imap)]

theorem shows_resyncLine {p : Message × ℕ} (h : ∀ f ∈ p.1.flags, Legible f) :
    Shows (Untagged.wire (resyncLine p)) (shownReply (p.2 + 1) (resyncItems p.1)) := by
  have hflags := shows_flags fun f hf => (h f hf).1
  exact shows_fetch (shows_row (.cons (shows_uid p.1.uid)
    (.cons (shows_modseq p.1.modseq) (.cons hflags .nil))))

end Printed

section Heard
variable {known : ℕ → Option (List Flag)}

@[simp] theorem tokensOf_nil : tokensOf [] = [] := rfl

@[simp] theorem tokensOf_atom_cons (s : String) (xs : List (Nested Leaf)) :
    tokensOf (atomItem s :: xs) = .atom s :: tokensOf xs := rfl

@[simp] theorem tokensOf_list_cons (xs ys : List (Nested Leaf)) :
    tokensOf (.list xs :: ys) = .lparen :: (tokensOf xs ++ .rparen :: tokensOf ys) := by
  have hsplit := tokensOf_append [.list xs] ys
  rw [tokensOf_list] at hsplit
  simpa using hsplit

theorem tokensOf_atoms (l : List String) : tokensOf (l.map atomItem) = l.map Token.atom := by
  induction l with
  | nil => rfl
  | cons s l ih => rw [List.map_cons, tokensOf_atom_cons, ih, List.map_cons]

theorem withinLimits_vanished (set : String) : WithinLimits [atomItem "*", atomItem "VANISHED",
    .list [atomItem "EARLIER"], atomItem set] := by
  intro l hl
  simp at hl

theorem withinLimits_resyncItems (seq : ℕ) (m : Message) :
    WithinLimits (shownReply seq (resyncItems m)) := by
  intro l hl
  have hatoms := tokensOf_atoms (m.flags.map Flag.imap)
  rw [List.map_map] at hatoms
  change tokensOf (m.flags.map fun f => atomItem f.imap) = _ at hatoms
  simp [shownReply, resyncItems, numberItem, hatoms] at hl

theorem readNumber_numberItem {n : ℕ} (hpos : 0 < n) (hfit : n < 2 ^ 32) :
    readNumber (numberItem n) = some n := by
  have hparse := parseU32_of_number (Or.inl rfl) (isNumber_toDigits hpos hfit)
  rwa [List.nil_append, decimal_toDigits, ← toList_toString, String.ofList_toList] at hparse

theorem readFlags_legible {flags : List Flag} (h : ∀ f ∈ flags, Legible f) :
    readFlags (.list (flags.map fun f => atomItem f.imap)) = some flags := by
  refine mapM_eq_some_iff.mpr ?_
  rw [List.forall₂_map_left_iff, List.forall₂_same]
  intro f hf
  change some (Flag.parse f.imap) = some f
  rw [(h f hf).2]

/-- A client reads the vanished line as it is meant. -/
theorem hear_vanishedEarlier {uids : List ℕ} (hne : uids ≠ [])
    (hfit : ∀ n ∈ uids, 0 < n ∧ n < 2 ^ 32) :
    hear known (Untagged.wire (.vanishedEarlier uids)) = applyLine known (.vanishedEarlier uids) := by
  funext uid
  obtain ⟨set, hset, hmem⟩ := readsAs_toSequenceSet hne hfit
  have hread := (shows_vanishedEarlier hne).readReply (withinLimits_vanished _)
  have hvanished : vanishedIn [atomItem "*", atomItem "VANISHED", .list [atomItem "EARLIER"],
      atomItem (toSequenceSet uids)] = some set := hset
  unfold hear
  rw [hread]
  dsimp only
  rw [hvanished]
  exact ite_congr (propext (hmem uid 0)) (fun _ => rfl) fun _ => rfl

/-- A client reads the line of a message as it is meant, if all its flags are legible. -/
theorem hear_resyncLine {p : Message × ℕ} (hpos : 0 < p.1.uid) (hfit : p.1.uid < 2 ^ 32)
    (h : ∀ f ∈ p.1.flags, Legible f) :
    hear known (Untagged.wire (resyncLine p)) = applyLine known (resyncLine p) := by
  funext uid
  have hread := (shows_resyncLine h).readReply (withinLimits_resyncItems (p.2 + 1) p.1)
  have hfetched : fetchedIn (shownReply (p.2 + 1) (resyncItems p.1)) =
      some (p.1.uid, p.1.flags) := by
    change ((some (numberItem p.1.uid)).bind readNumber).bind (fun uid =>
      ((some (.list (p.1.flags.map fun f => atomItem f.imap))).bind readFlags).bind fun flags =>
        some (uid, flags)) = _
    rw [Option.bind_some, readNumber_numberItem hpos hfit, Option.bind_some, Option.bind_some,
      readFlags_legible h, Option.bind_some]
  unfold hear
  rw [hread, applyLine_resyncLine]
  change (match fetchedIn (shownReply (p.2 + 1) (resyncItems p.1)) with
    | some (n, flags) => if n = uid then some flags else known uid
    | none => known uid) = _
  rw [hfetched]

end Heard

section Cut

theorem IsBare.lf_notMem {s : String} (h : IsBare s) : 10 ∉ utf8 s := by
  intro hmem
  exact absurd (h.2 10 hmem) (by decide)

theorem lf_notMem_append {a b : Bytes} (ha : 10 ∉ a) (hb : 10 ∉ b) : 10 ∉ a ++ b :=
  fun hmem => (List.mem_append.mp hmem).elim ha hb

theorem lf_notMem_row {l : List Bytes} (h : ∀ b ∈ l, 10 ∉ b) : 10 ∉ ([32] : Bytes).intercalate l := by
  induction l with
  | nil => exact List.not_mem_nil
  | cons b l ih =>
    obtain ⟨hb, hl⟩ := List.forall_mem_cons.mp h
    cases l with
    | nil => simpa [List.intercalate] using hb
    | cons c l =>
      rw [intercalate_cons_cons]
      exact lf_notMem_append hb (List.not_mem_cons_of_ne_of_not_mem (by decide) (ih hl))

theorem lf_notMem_number (n : ℕ) : 10 ∉ utf8 (toString n) := (isBare_toString n).lf_notMem

theorem lf_notMem_flags {flags : List Flag} (h : ∀ f ∈ flags, IsBare f.imap) :
    10 ∉ Datum.wire (.flags flags) := by
  have hrow : 10 ∉ utf8 (flagsStr flags) := by
    unfold flagsStr
    rw [utf8_joinWith, List.map_map]
    refine lf_notMem_row fun b hb => ?_
    obtain ⟨f, hf, rfl⟩ := List.mem_map.mp hb
    exact (h f hf).lf_notMem
  change 10 ∉ utf8 ("FLAGS (" ++ flagsStr flags ++ ")")
  rw [utf8_append, utf8_append]
  exact lf_notMem_append (lf_notMem_append (by decide) hrow) (by decide)

theorem lf_notMem_uid (uid : ℕ) : 10 ∉ Datum.wire (.uid uid) := by
  change 10 ∉ utf8 ("UID " ++ toString uid)
  rw [utf8_append]
  exact lf_notMem_append (by decide) (lf_notMem_number uid)

theorem lf_notMem_modseq (modseq : ℕ) : 10 ∉ Datum.wire (.modseq modseq) := by
  change 10 ∉ utf8 ("MODSEQ (" ++ toString modseq ++ ")")
  rw [utf8_append, utf8_append]
  exact lf_notMem_append (lf_notMem_append (by decide) (lf_notMem_number modseq)) (by decide)

/-- A line and its only line feed. -/
def IsLine (line : Bytes) : Prop := ∃ body, 10 ∉ body ∧ line = body ++ [10]

theorem isLine_crlf {body : Bytes} (h : 10 ∉ body) : IsLine (body ++ crlf) :=
  ⟨body ++ [13], lf_notMem_append h (by decide), by simp [crlf]⟩

theorem isLine_vanishedEarlier {uids : List ℕ} (hne : uids ≠ []) :
    IsLine (Untagged.wire (.vanishedEarlier uids)) := by
  refine isLine_crlf ?_
  rw [utf8_append]
  exact lf_notMem_append (by decide) (isAtom_toSequenceSet hne).isBare.lf_notMem

theorem isLine_resyncLine {p : Message × ℕ} (h : ∀ f ∈ p.1.flags, Legible f) :
    IsLine (Untagged.wire (resyncLine p)) := by
  have hdata : ∀ b ∈ [Datum.wire (.uid p.1.uid), Datum.wire (.modseq p.1.modseq),
      Datum.wire (.flags p.1.flags)], 10 ∉ b := by
    simp only [List.forall_mem_cons]
    exact ⟨lf_notMem_uid _, lf_notMem_modseq _, lf_notMem_flags fun f hf => (h f hf).1,
      List.forall_mem_nil _⟩
  refine isLine_crlf (lf_notMem_append (lf_notMem_append ?_ (lf_notMem_row hdata)) (by decide))
  rw [utf8_append, utf8_append]
  exact lf_notMem_append (lf_notMem_append (by decide) (lf_notMem_number _)) (by decide)

theorem isLines_of_isLine {lines : List Bytes} (h : ∀ line ∈ lines, IsLine line) :
    IsLines lines := by
  induction lines with
  | nil => exact .nil
  | cons line lines ih =>
    obtain ⟨hline, hlines⟩ := List.forall_mem_cons.mp h
    obtain ⟨body, hbody, rfl⟩ := hline
    exact .cons hbody (ih hlines)

/-- A printed catch-up is applied line by line. -/
theorem catchUp_eq {us : List Untagged} (known : ℕ → Option (List Flag))
    (hline : ∀ u ∈ us, IsLine u.wire) (hread : ∀ u ∈ us, ∀ known, hear known u.wire = applyLine known u) :
    catchUp known (us.flatMap Untagged.wire) = us.foldl applyLine known := by
  have hlines : IsLines (us.map Untagged.wire) := by
    refine isLines_of_isLine fun line hmem => ?_
    obtain ⟨u, hu, rfl⟩ := List.mem_map.mp hmem
    exact hline u hu
  unfold catchUp
  rw [List.flatMap_def, hlines.splitInclusive_flatten, List.foldl_map]
  exact List.foldl_ext _ _ _ fun known u hu => hread u hu known

end Cut

section Learned

/-- What is printed for the text that an atom stands for has nothing in it that ends an atom. -/
theorem isBare_of_spelled {s : String} (h : (Token.atom s).Spelled) : IsBare s := by
  obtain ⟨w, hne, hw, rfl⟩ := h
  constructor
  · obtain ⟨b, w, rfl⟩ := List.exists_cons_of_ne_nil hne
    intro hempty
    have hnil := congrArg String.toList hempty
    rw [fromUtf8Lossy, String.toList_ofList] at hnil
    cases hnil
  · intro b hb
    rw [utf8_toList] at hb
    obtain ⟨c, hc, hb⟩ := List.mem_flatMap.mp hb
    by_cases hascii : c.toNat < 128
    · rw [keepsAscii_utf8.ascii c hascii] at hb
      obtain rfl := List.mem_singleton.mp hb
      by_cases hzero : c.toNat = 0
      · rw [hzero]
        decide
      · exact hw _ (mem_fromUtf8Lossy (Nat.pos_of_ne_zero hzero) hascii hc)
    · have hlarge := keepsAscii_utf8.other c (Nat.le_of_not_lt hascii) b hb
      unfold endsAtom
      simp only [Bool.or_eq_false_iff, beq_eq_false_iff_ne, ne_eq, ← UInt8.toNat_inj,
        UInt8.reduceToNat]
      omega

theorem parse_eq_keyword {s k : String} (h : Flag.parse s = .keyword k) : k = s := by
  unfold Flag.parse at h
  split at h <;> cases h
  rfl

theorem legible_of_isAtom {f : Flag} (hatom : IsAtom f.imap) (hparse : Flag.parse f.imap = f) :
    Legible f := ⟨hatom.isBare, hparse⟩

/-- Every flag a client can read is legible. -/
theorem legible_parse {s : String} (h : IsBare s) : Legible (Flag.parse s) := by
  cases hparse : Flag.parse s with
  | keyword k =>
    obtain rfl := parse_eq_keyword hparse
    exact ⟨h, hparse⟩
  | _ => exact legible_of_isAtom (by decide) (by decide +kernel)

theorem mark_injective : Function.Injective Token.mark := by
  intro t t' h
  cases t <;> cases t' <;> cases h <;> rfl

/-- An atom that a client reads stands on its own in the line. -/
theorem isBare_of_readReply {line : Bytes} {items : List (Nested Leaf)}
    (hread : readReply line = some items) {s : String}
    (hs : Mark.leaf (.atom s) ∈ Nested.marksAll items) : IsBare s := by
  unfold readReply at hread
  split at hread
  · rename_i toks htoks
    rw [Nested.marksAll_of_read hread] at hs
    obtain ⟨t, ht, hmark⟩ := List.mem_map.mp hs
    obtain rfl : t = .atom s := mark_injective hmark
    exact isBare_of_spelled ((answers_tokenize line).of_ok htoks _ ht)
  · cases hread

theorem mem_of_valueOf {name : String} {xs : List (Nested Leaf)} {x : Nested Leaf}
    (h : valueOf name xs = some x) : x ∈ xs := by
  fun_induction valueOf name xs with
  | case1 y rest =>
    cases h
    simp
  | case2 a y rest hname ih => simp [ih h]
  | case3 => cases h

theorem legible_of_readFlag {item : Nested Leaf} {f : Flag} (h : readFlag item = some f)
    (hbare : ∀ s, Mark.leaf (.atom s) ∈ item.marks → IsBare s) : Legible f := by
  unfold readFlag at h
  split at h
  · cases h
    exact legible_parse (hbare _ (List.mem_singleton_self _))
  · cases h

theorem legible_of_readFlags {x : Nested Leaf} {flags : List Flag} (h : readFlags x = some flags)
    (hbare : ∀ s, Mark.leaf (.atom s) ∈ x.marks → IsBare s) : ∀ f ∈ flags, Legible f := by
  cases x with
  | leaf l => cases h
  | list items =>
    have hrow : List.Forall₂ (fun item f => readFlag item = some f) items flags :=
      mapM_eq_some_iff.mp h
    have hitems : ∀ item ∈ items, ∀ s, Mark.leaf (.atom s) ∈ item.marks → IsBare s :=
      fun item hitem s hs =>
        hbare s (Nested.marksAll_subset items (Nested.marks_subset hitem hs))
    clear h hbare
    induction hrow with
    | nil => exact List.forall_mem_nil _
    | cons hread _ ih =>
      obtain ⟨hitem, hrest⟩ := List.forall_mem_cons.mp hitems
      exact List.forall_mem_cons.mpr ⟨legible_of_readFlag hread hitem, ih hrest⟩

theorem legible_of_fetchedIn {items : List (Nested Leaf)} {uid : ℕ} {flags : List Flag}
    (h : fetchedIn items = some (uid, flags))
    (hbare : ∀ s, Mark.leaf (.atom s) ∈ Nested.marksAll items → IsBare s) :
    ∀ f ∈ flags, Legible f := by
  unfold fetchedIn at h
  split at h
  · rename_i star seq verb data
    split_ifs at h with hnames
    obtain ⟨n, -, h⟩ := Option.bind_eq_some_iff.mp h
    obtain ⟨flags', hflags, h⟩ := Option.bind_eq_some_iff.mp h
    cases h
    obtain ⟨x, hx, hread⟩ := Option.bind_eq_some_iff.mp hflags
    refine legible_of_readFlags hread fun s hs => hbare s ?_
    have hinside := Nested.marksAll_subset data (Nested.marks_subset (mem_of_valueOf hx) hs)
    exact Nested.marks_subset (by simp) hinside
  · cases h

/-- What a client knows of a UID is what it knew before, or flags that are all legible. -/
def Learned (known : ℕ → Option (List Flag)) (uid : ℕ) (v : Option (List Flag)) : Prop :=
  v = known uid ∨ v = none ∨ ∃ flags, v = some flags ∧ ∀ f ∈ flags, Legible f

theorem learned_hear {known known' : ℕ → Option (List Flag)} {uid : ℕ}
    (h : Learned known uid (known' uid)) (line : Bytes) :
    Learned known uid (hear known' line uid) := by
  unfold hear
  cases hread : readReply line with
  | none => exact h
  | some items =>
    dsimp only
    cases vanishedIn items with
    | some set =>
      dsimp only
      split_ifs
      · exact Or.inr (Or.inl rfl)
      · exact h
    | none =>
      dsimp only
      cases hfetched : fetchedIn items with
      | none => exact h
      | some p =>
        obtain ⟨n, flags⟩ := p
        dsimp only
        split_ifs
        · exact Or.inr (Or.inr ⟨flags, rfl, legible_of_fetchedIn hfetched fun s hs =>
            isBare_of_readReply hread hs⟩)
        · exact h

theorem learned_catchUp (known : ℕ → Option (List Flag)) (out : Bytes) (uid : ℕ) :
    Learned known uid (catchUp known out uid) := by
  unfold catchUp
  suffices hrun : ∀ (lines : List Bytes) known', Learned known uid (known' uid) →
      Learned known uid (lines.foldl hear known' uid) from hrun _ known (Or.inl rfl)
  intro lines
  induction lines with
  | nil => exact fun known' h => h
  | cons line lines ih => exact fun known' h => ih _ (learned_hear h line)

end Learned

section Mailboxes
variable {mb mb' : Mailbox} {s : MemoryStore} {name : String}

/-- The catch-up of a mailbox as it goes over the wire, without a set of known UIDs. -/
def resyncWire (s : MemoryStore) (name : String) (modseq : ℕ) : Bytes :=
  (Session.qresyncResync s name modseq none).flatMap Untagged.wire

/-- The lines of a catch-up: UIDs that went away, and messages that changed. -/
theorem mem_qresyncResync (hname : s.mailbox name = some mb') {modseq : ℕ} {u : Untagged}
    (hu : u ∈ Session.qresyncResync s name modseq none) :
    (∃ uids, u = .vanishedEarlier uids ∧ uids ≠ [] ∧ ∀ uid ∈ uids, uid ∈ mb'.vanishedSince modseq) ∨
      ∃ p : Message × ℕ, u = resyncLine p ∧ p.1 ∈ mb'.messages ∧ modseq < p.1.modseq := by
  rw [qresyncResync_eq hname] at hu
  rcases List.mem_append.mp hu with hu | hu
  · split_ifs at hu with hempty
    · cases hu
    · refine Or.inl ⟨_, List.mem_singleton.mp hu, ?_, fun uid huid => ?_⟩
      · exact fun hnil => hempty (List.isEmpty_iff.mpr hnil)
      · exact (List.mem_insertionSort (· ≤ ·)).mp huid
  · obtain ⟨p, hp, rfl⟩ := List.mem_map.mp hu
    obtain ⟨hmem, hlt⟩ := List.mem_filter.mp hp
    exact Or.inr ⟨p, rfl, List.fst_mem_of_mem_zipIdx hmem, by simpa using hlt⟩

/-- With legible flags and UIDs of 32 bits the printed catch-up is the catch-up. -/
theorem catchUp_of_grows (hmb : mb.ledger.WellFormed) (hmb' : mb'.ledger.WellFormed)
    (hgrows : mb.Grows mb') (hname : s.mailbox name = some mb') (hnext : mb'.uidNext < 2 ^ 32)
    (hlegible : ∀ m ∈ mb'.messages, mb.highestModseq < m.modseq → ∀ f ∈ m.flags, Legible f) :
    catchUp mb.flagsOf (resyncWire s name mb.highestModseq) = mb'.flagsOf := by
  have hinvariant := Mailbox.invariant_of_ledger hmb'
  have hvanished : ∀ uid ∈ mb'.vanishedSince mb.highestModseq, 0 < uid ∧ uid < 2 ^ 32 := by
    intro uid huid
    obtain ⟨t, ht, -⟩ := Mailbox.mem_vanishedSince.mp huid
    have hbounds := hmb'.goneBounds (uid, t) ht
    exact ⟨hbounds.1, hbounds.2.1.trans hnext⟩
  unfold resyncWire
  rw [catchUp_eq mb.flagsOf, resync_of_grows hmb hmb' hgrows hname]
  · intro u hu
    rcases mem_qresyncResync hname hu with ⟨uids, rfl, hne, -⟩ | ⟨p, rfl, hp, hlt⟩
    · exact isLine_vanishedEarlier hne
    · exact isLine_resyncLine (hlegible p.1 hp hlt)
  · intro u hu known
    rcases mem_qresyncResync hname hu with ⟨uids, rfl, hne, huids⟩ | ⟨p, rfl, hp, hlt⟩
    · exact hear_vanishedEarlier hne fun uid huid => hvanished uid (huids uid huid)
    · have huid := hinvariant.uids p.1 hp
      exact hear_resyncLine huid.1 (huid.2.trans hnext) (hlegible p.1 hp hlt)

/-- No catch-up can tell a client of flags that are not legible. -/
theorem catchUp_ne_of_illegible (hmb' : mb'.ledger.WellFormed) {m : Message}
    (hm : m ∈ mb'.messages) (hillegible : ∃ f ∈ m.flags, ¬Legible f)
    (hchanged : mb.flagsOf m.uid ≠ some m.flags) (out : Bytes) :
    catchUp mb.flagsOf out ≠ mb'.flagsOf := by
  intro heq
  have hlearned := learned_catchUp mb.flagsOf out m.uid
  rw [heq, Mailbox.flagsOf_of_mem hmb' hm] at hlearned
  rcases hlearned with hknown | hnone | ⟨flags, hflags, hlegible⟩
  · exact hchanged hknown.symm
  · cases hnone
  · obtain ⟨f, hf, hnot⟩ := hillegible
    cases hflags
    exact hnot (hlegible f hf)

end Mailboxes

/-- Between any two moments of a run that neither deletes nor renames the mailbox, a client that
reads the printed catch-up has the flags of the mailbox, if those of every message that changed are
legible. Flags that changed to ones that are not legible it never has. -/
theorem catchUp_exact {r : Renderers} {s s' : MemoryStore} {calls : List Call}
    (h : Reachable r s) (hrun : Run r s calls s') {name : String} {mb : Mailbox}
    (hmb : s.mailbox name = some mb) (hdelete : .delete name ∉ calls)
    (hrename : ∀ target, .rename name target ∉ calls) :
    ∃ mb', s'.mailbox name = some mb' ∧
      (mb'.messages.length + mb'.expunged.length < 2 ^ 32 - 1 →
        (∀ m ∈ mb'.messages, mb.highestModseq < m.modseq → ∀ f ∈ m.flags, Legible f) →
        catchUp mb.flagsOf (resyncWire s' name mb.highestModseq) = mb'.flagsOf) ∧
      ((∃ m ∈ mb'.messages, (∃ f ∈ m.flags, ¬Legible f) ∧ mb.flagsOf m.uid ≠ some m.flags) →
        catchUp mb.flagsOf (resyncWire s' name mb.highestModseq) ≠ mb'.flagsOf) := by
  obtain ⟨mb', hmb', hgrows⟩ := hrun.path.follow hmb (follow_of_not_mem hdelete hrename)
  have hledger := h.wellFormed.ledgers name mb hmb
  have hledger' := (hrun.path.wellFormed h.wellFormed).ledgers name mb' hmb'
  refine ⟨mb', hmb', fun happends hlegible => ?_, ?_⟩
  · have hnext := (Mailbox.invariant_of_ledger hledger').uidNext_lt happends
    exact catchUp_of_grows hledger hledger' hgrows hmb' hnext hlegible
  · rintro ⟨m, hm, hillegible, hchanged⟩
    exact catchUp_ne_of_illegible hledger' hm hillegible hchanged _

/-- A request to set a keyword on the first message of INBOX. -/
def keywordUpdate (keyword : String) : Jmap.Invocation :=
  ⟨"Email/set", .obj [("update", .obj [("INBOX|1", .obj [("keywords/" ++ keyword, .bool true)])])],
    "c"⟩

def keywordSet (keyword : String) : MemoryStore :=
  (Jmap.process Renderers.blank.jmap (MemoryStore.holding "INBOX") "account"
    [keywordUpdate keyword]).1

/-- INBOX with its first message, before and after. -/
def keywordMailbox : Mailbox := ((Mailbox.new "INBOX" (some .inbox)).append [97] [] 0).2

def keywordMailboxSet (keyword : String) : Mailbox :=
  keywordMailbox.touch 0 fun m => { m with flags := [.keyword keyword] }

theorem mailbox_holding_inbox :
    (MemoryStore.holding "INBOX").mailbox "INBOX" = some keywordMailbox := by decide

theorem keywordSet_eq : ∀ keyword ∈ ["$junk", "a b"], keywordSet keyword =
    (MemoryStore.holding "INBOX").put "INBOX" (keywordMailboxSet keyword) := by decide +kernel

theorem run_keywordSet (keyword : String) (h : keyword ∈ ["$junk", "a b"]) :
    Run .blank (MemoryStore.holding "INBOX") [.edit "INBOX"] (keywordSet keyword) := by
  have hedit := Step.edit mailbox_holding_inbox (Mailbox.edits_touch (i := 0) rfl
    (f := fun m => { m with flags := [.keyword keyword] }) fun _ => rfl)
  refine Run.start.step (.jmap "account" [keywordUpdate keyword]) rfl ?_
  rw [keywordSet_eq keyword h]
  exact Path.single hedit

theorem mailbox_keywordSet (keyword : String) (h : keyword ∈ ["$junk", "a b"]) :
    (keywordSet keyword).mailbox "INBOX" = some (keywordMailboxSet keyword) := by
  rw [keywordSet_eq keyword h, MemoryStore.mailbox_put, if_pos rfl]

/-- The keyword `$junk` reaches the client, the keyword `a b` does not. -/
theorem catchUp_exact_keyword :
    catchUp keywordMailbox.flagsOf (resyncWire (keywordSet "$junk") "INBOX"
        keywordMailbox.highestModseq) = (keywordMailboxSet "$junk").flagsOf ∧
      catchUp keywordMailbox.flagsOf (resyncWire (keywordSet "a b") "INBOX"
        keywordMailbox.highestModseq) ≠ (keywordMailboxSet "a b").flagsOf := by
  constructor
  · obtain ⟨mb', hmb', hexact, -⟩ := catchUp_exact (reachable_holding "INBOX")
      (run_keywordSet "$junk" (by decide)) mailbox_holding_inbox (by decide) (by simp)
    obtain rfl := Option.some.inj ((mailbox_keywordSet "$junk" (by decide)).symm.trans hmb')
    exact hexact (by decide) (by decide +kernel)
  · obtain ⟨mb', hmb', -, hwrong⟩ := catchUp_exact (reachable_holding "INBOX")
      (run_keywordSet "a b" (by decide)) mailbox_holding_inbox (by decide) (by simp)
    obtain rfl := Option.some.inj ((mailbox_keywordSet "a b" (by decide)).symm.trans hmb')
    exact hwrong (by decide)

/-- A JMAP client sets the keyword `a b`, and the IMAP client reads two of them. -/
theorem catchUp_split_keyword : ∃ (calls : List Call) (mb mb' : Mailbox),
    Reachable .blank (MemoryStore.holding "INBOX") ∧
      Run .blank (MemoryStore.holding "INBOX") calls (keywordSet "a b") ∧
      (MemoryStore.holding "INBOX").mailbox "INBOX" = some mb ∧
      .delete "INBOX" ∉ calls ∧ (∀ target, .rename "INBOX" target ∉ calls) ∧
      (keywordSet "a b").mailbox "INBOX" = some mb' ∧ mb'.flagsOf 1 = some [.keyword "a b"] ∧
      catchUp mb.flagsOf (resyncWire (keywordSet "a b") "INBOX" mb.highestModseq) 1 =
        some [.keyword "a", .keyword "b"] := by
  exact ⟨_, _, keywordMailboxSet "a b", reachable_holding "INBOX", run_keywordSet "a b" (by decide),
    mailbox_holding_inbox, by decide, by simp, mailbox_keywordSet "a b" (by decide), by decide,
    by decide +kernel⟩

end Dmtap.Mail.Imap
