import Mathlib.Data.Prod.Lex
import Dmtap.Lib.Criteria
import Dmtap.Lib.Positions
import Dmtap.Mail.Addresses
import Dmtap.Mail.Imap.Targets
import Dmtap.Mail.Imap.Threads
import Dmtap.Mail.Invariant

/-! SORT: the messages that a search finds, in the order of the criteria. -/
namespace Dmtap.Mail.Imap
open Lib

section Keys
variable (lowercase : String → String)

/-- The mailbox of the first address of a header, or the name that it shows. -/
def addrSortKey (m : Message) (header : String) (display : Bool) : Option String := do
  let addrs ← (ParsedMessage.parse m.raw).addresses header
  match addrs.head? with
  | some a =>
    if display then some (lowercase (decodeEncodedWords ((a.name.or a.mailbox).getD "")))
    else some (lowercase (a.mailbox.getD ""))
  | none => some ""

def compareKey : SortKey → Criterion Message
  | .arrival => .on fun m => some m.internalDate
  | .size => .on fun m => some m.size
  | .date => .on fun m => some (toLex ((sortDate m).1, toLex (sortDate m).2))
  | .subject => .on fun m => some (baseSubject lowercase m)
  | .sender => .on fun m => addrSortKey lowercase m "From" false
  | .recipient => .on fun m => addrSortKey lowercase m "To" false
  | .cc => .on fun m => addrSortKey lowercase m "Cc" false
  | .displayFrom => .on fun m => addrSortKey lowercase m "From" true
  | .displayTo => .on fun m => addrSortKey lowercase m "To" true

def compareCriterion (c : SortCriterion) : Criterion Message :=
  if c.reverse then (compareKey lowercase c.key).reversed else compareKey lowercase c.key

/-- Messages that the criteria do not tell apart stand in the order of their UIDs. -/
def sortCompare : List SortCriterion → Criterion Message
  | [], a, b => some (compare a.uid b.uid)
  | c :: criteria, a, b => do
    let ord ← compareCriterion lowercase c a b
    if ord ≠ .eq then some ord else sortCompare criteria a b

/-- The comparison of two messages by their places in the mailbox. -/
def compareAt (mb : Mailbox) (criteria : List SortCriterion) : Criterion ℕ :=
  (sortCompare lowercase criteria).comap fun i => mb.messages[i]?

/-- The matched messages in order; none where comparing two of them takes an address header apart
that cannot be. Then some comparison that the order needs does so, whichever way it is found. -/
def sortedMatches (mb : Mailbox) (criteria : List SortCriterion) (matched : List ℕ) :
    Option (List ℕ) :=
  (compareAt lowercase mb criteria).sort matched

def Views.withSort (views : Views) : Views :=
  { views with sortMatches := fun mb criteria matched =>
      (sortedMatches lowercase mb criteria matched).getD matched }

end Keys

section Order
variable {lowercase : String → String} {criteria : List SortCriterion} {a b : Message}

/-- Some criterion puts one message in front, and those before it do not tell them apart; or none
does, and the UID decides. -/
def Precedes (lowercase : String → String) (criteria : List SortCriterion) (a b : Message) : Prop :=
  (∃ done c left, criteria = done ++ c :: left ∧
    (∀ d ∈ done, compareCriterion lowercase d a b = some .eq) ∧
    compareCriterion lowercase c a b = some .lt) ∨
  ((∀ c ∈ criteria, compareCriterion lowercase c a b = some .eq) ∧ a.uid < b.uid)

/-- The criteria are tied up to one that reads an address header of either message in vain. -/
def Unreadable (lowercase : String → String) (criteria : List SortCriterion) (a b : Message) : Prop :=
  ∃ done c left, criteria = done ++ c :: left ∧
    (∀ d ∈ done, compareCriterion lowercase d a b = some .eq) ∧
    compareCriterion lowercase c a b = none

theorem lawful_compareKey (key : SortKey) : (compareKey lowercase key).Lawful := by
  cases key with
  | arrival => exact Criterion.lawful_on _
  | cc => exact Criterion.lawful_on _
  | date => exact Criterion.lawful_on _
  | sender => exact Criterion.lawful_on _
  | size => exact Criterion.lawful_on _
  | subject => exact Criterion.lawful_on _
  | recipient => exact Criterion.lawful_on _
  | displayFrom => exact Criterion.lawful_on _
  | displayTo => exact Criterion.lawful_on _

theorem lawful_compareCriterion (c : SortCriterion) : (compareCriterion lowercase c).Lawful := by
  unfold compareCriterion
  split_ifs
  · exact (lawful_compareKey c.key).reversed
  · exact lawful_compareKey c.key

/-- The UID is a criterion behind all others. -/
theorem sortCompare_eq_byFirst : sortCompare lowercase criteria = Criterion.byFirst
    (criteria.map (compareCriterion lowercase) ++ [Criterion.on fun m => some m.uid]) := by
  induction criteria with
  | nil =>
    funext a b
    change some (compare a.uid b.uid) = Criterion.byFirst [Criterion.on fun m => some m.uid] a b
    rw [Criterion.byFirst, Criterion.byFirst]
    change _ = if compare a.uid b.uid ≠ .eq then some (compare a.uid b.uid) else some .eq
    split_ifs with h
    · rfl
    · rw [not_not.mp h]
  | cons c criteria ih =>
    funext a b
    rw [sortCompare, ih]
    rfl

theorem lawful_sortCompare : (sortCompare lowercase criteria).Lawful := by
  rw [sortCompare_eq_byFirst]
  refine Criterion.lawful_byFirst fun c hc => ?_
  rcases List.mem_append.mp hc with hc | hc
  · obtain ⟨c, -, rfl⟩ := List.mem_map.mp hc
    exact lawful_compareCriterion c
  · obtain rfl := List.mem_singleton.mp hc
    exact Criterion.lawful_on _

/-- Split a list of criteria with the UID behind them at one of them. -/
theorem reaches_criteria_iff {p : Option Ordering → Prop} : Criterion.Reaches p
      (criteria.map (compareCriterion lowercase) ++ [Criterion.on fun m => some m.uid]) a b ↔
    (∃ done c left, criteria = done ++ c :: left ∧
      (∀ d ∈ done, compareCriterion lowercase d a b = some .eq) ∧
      p (compareCriterion lowercase c a b)) ∨
    ((∀ c ∈ criteria, compareCriterion lowercase c a b = some .eq) ∧
      p (some (compare a.uid b.uid))) := by
  induction criteria with
  | nil =>
    rw [List.map_nil, List.nil_append, Criterion.reaches_cons_iff]
    have hnil : ¬Criterion.Reaches p ([] : List (Criterion Message)) a b := Criterion.not_reaches_nil
    simp [Criterion.on, Criterion.comap, hnil]
  | cons c criteria ih =>
    rw [List.map_cons, List.cons_append, Criterion.reaches_cons_iff, ih]
    constructor
    · rintro (hp | ⟨htie, ⟨done, d, left, rfl, htied, hp⟩ | ⟨htied, hp⟩⟩)
      · exact Or.inl ⟨[], c, criteria, rfl, fun d hd => (nomatch hd), hp⟩
      · exact Or.inl ⟨c :: done, d, left, rfl, List.forall_mem_cons.mpr ⟨htie, htied⟩, hp⟩
      · exact Or.inr ⟨List.forall_mem_cons.mpr ⟨htie, htied⟩, hp⟩
    · rintro (⟨done, d, left, h, htied, hp⟩ | ⟨htied, hp⟩)
      · cases done with
        | nil =>
          obtain ⟨rfl, rfl⟩ := List.cons.inj h
          exact Or.inl hp
        | cons e done =>
          obtain ⟨rfl, rfl⟩ := List.cons.inj h
          obtain ⟨htie, htied⟩ := List.forall_mem_cons.mp htied
          exact Or.inr ⟨htie, Or.inl ⟨done, d, left, rfl, htied, hp⟩⟩
      · obtain ⟨htie, htied⟩ := List.forall_mem_cons.mp htied
        exact Or.inr ⟨htie, Or.inr ⟨htied, hp⟩⟩

theorem sortCompare_eq_lt_iff :
    sortCompare lowercase criteria a b = some .lt ↔ Precedes lowercase criteria a b := by
  have hlt : some (compare a.uid b.uid) = some Ordering.lt ↔ a.uid < b.uid := by
    rw [Option.some.injEq]
    exact compare_lt_iff_lt
  rw [sortCompare_eq_byFirst, Criterion.byFirst_eq_iff (by decide), reaches_criteria_iff]
  unfold Precedes
  rw [hlt]

theorem sortCompare_eq_none_iff :
    sortCompare lowercase criteria a b = none ↔ Unreadable lowercase criteria a b := by
  rw [sortCompare_eq_byFirst, Criterion.byFirst_eq_iff (by decide), reaches_criteria_iff]
  unfold Unreadable
  simp

theorem uid_eq_of_sortCompare (h : sortCompare lowercase criteria a b = some .eq) :
    a.uid = b.uid := by
  rw [sortCompare_eq_byFirst, Criterion.byFirst_eq_tie_iff] at h
  have huid := h _ (List.mem_append_right _ List.mem_cons_self)
  exact compare_eq_iff_eq.mp (Option.some.inj huid)

end Order

section Command
variable {lowercase : String → String} {mb : Mailbox} {criteria : List SortCriterion}
  {matched order : List ℕ} {i j : ℕ} {a b : Message}

theorem lawful_compareAt : (compareAt lowercase mb criteria).Lawful :=
  have : Inhabited Message := ⟨Message.new 0 [] 0 0 []⟩
  lawful_sortCompare.comap _

theorem compareAt_eq (ha : mb.messages[i]? = some a) (hb : mb.messages[j]? = some b) :
    compareAt lowercase mb criteria i j = sortCompare lowercase criteria a b := by
  unfold compareAt Criterion.comap
  dsimp only
  rw [ha, hb]
  rfl

/-- Two messages of a mailbox never tie, for their UIDs differ. -/
theorem compareAt_ne_tie (hmb : mb.Invariant) (hne : i ≠ j) :
    compareAt lowercase mb criteria i j ≠ some .eq := by
  intro htie
  obtain ⟨a, b, ha, hb, htie⟩ := Criterion.comap_eq_some_iff.mp htie
  have huid := uid_eq_of_sortCompare htie
  obtain ⟨hi, rfl⟩ := List.getElem?_eq_some_iff.mp ha
  obtain ⟨hj, rfl⟩ := List.getElem?_eq_some_iff.mp hb
  have hasc := List.pairwise_iff_getElem.mp hmb.ascending
  rcases Nat.lt_or_gt_of_ne hne with hlt | hlt
  · exact absurd huid (Nat.ne_of_lt (hasc i j hi hj hlt))
  · exact absurd huid.symm (Nat.ne_of_lt (hasc j i hj hi hlt))

/-- The message at one place precedes the message at another. -/
def PrecedesAt (lowercase : String → String) (mb : Mailbox) (criteria : List SortCriterion)
    (i j : ℕ) : Prop :=
  ∃ a b, mb.messages[i]? = some a ∧ mb.messages[j]? = some b ∧ Precedes lowercase criteria a b

theorem compareAt_eq_lt_iff :
    compareAt lowercase mb criteria i j = some .lt ↔ PrecedesAt lowercase mb criteria i j := by
  unfold compareAt PrecedesAt
  rw [Criterion.comap_eq_some_iff]
  simp only [sortCompare_eq_lt_iff]

theorem searchMatches_lt {views : Views} {key : SearchKey} {saved : List ℕ}
    (hi : i ∈ searchMatches views mb key saved) : ∃ a, mb.messages[i]? = some a := by
  obtain ⟨a, ha, -⟩ := mem_positions.mp hi
  exact ⟨a, ha⟩

theorem nodup_searchMatches (views : Views) (mb : Mailbox) (key : SearchKey) (saved : List ℕ) :
    (searchMatches views mb key saved).Nodup :=
  (positions_ascending _ mb.messages).imp Nat.ne_of_lt

theorem sortedMatches_eq_none_iff (hrange : ∀ i ∈ matched, ∃ a, mb.messages[i]? = some a)
    (hnodup : matched.Nodup) : sortedMatches lowercase mb criteria matched = none ↔
      ∃ i ∈ matched, ∃ j ∈ matched, i ≠ j ∧ ∃ a b, mb.messages[i]? = some a ∧
        mb.messages[j]? = some b ∧ Unreadable lowercase criteria a b := by
  have hsymm : Std.Symm fun i j => (compareAt lowercase mb criteria i j).isSome = true := by
    refine ⟨fun i j hij => ?_⟩
    obtain ⟨o, ho⟩ := Option.isSome_iff_exists.mp hij
    rw [lawful_compareAt.swap ho]
    rfl
  unfold sortedMatches
  rw [Criterion.sort_eq_none_iff]
  constructor
  · intro hpairs
    by_contra hnone
    push Not at hnone
    refine hpairs (hnodup.imp_of_mem fun {i j} hi hj hne => ?_)
    obtain ⟨a, ha⟩ := hrange i hi
    obtain ⟨b, hb⟩ := hrange j hj
    rw [← Option.ne_none_iff_isSome, compareAt_eq ha hb]
    exact mt sortCompare_eq_none_iff.mp (hnone i hi j hj hne a b ha hb)
  · rintro ⟨i, hi, j, hj, hne, a, b, ha, hb, hunreadable⟩ hpairs
    have hsome := hpairs.forall hi hj hne
    rw [compareAt_eq ha hb, sortCompare_eq_none_iff.mpr hunreadable] at hsome
    cases hsome

/-- In every mailbox of every reachable store, SORT answers with exactly the messages that SEARCH
finds, each in front of those it precedes by the first criterion that tells them apart, and there is
no other such order. It fails only where the criteria need an address header that cannot be taken
apart. -/
theorem sort_orders_matches {r : Renderers} {s : Session MemoryStore} (h : Reachable r s.store)
    {name : String} (hselected : s.selected = some name) (hmb : s.store.mailbox name = some mb)
    (views : Views) (tag : String) {charset : Option String} (hcharset : badCharset charset = false)
    (key : SearchKey) (uid : Bool)
    (hmatched : searchMatches (views.withSort lowercase) mb key s.savedSearch = matched) :
    (sortedMatches lowercase mb criteria matched = none ↔
      ∃ i ∈ matched, ∃ j ∈ matched, i ≠ j ∧ ∃ a b, mb.messages[i]? = some a ∧
        mb.messages[j]? = some b ∧ Unreadable lowercase criteria a b) ∧
    ∀ order, sortedMatches lowercase mb criteria matched = some order →
      s.cmdSort (views.withSort lowercase) tag criteria charset key uid =
        (s, [untagged (trimEnd ("SORT " ++
          joinWith " " (order.map fun i => toString (Session.numberOf mb uid i)))),
          ok tag "SORT completed"]) ∧
      order.Perm matched ∧ order.Pairwise (PrecedesAt lowercase mb criteria) ∧
      ∀ order' : List ℕ, order'.Perm matched →
        order'.Pairwise (PrecedesAt lowercase mb criteria) → order' = order := by
  have hinvariant := Mailbox.invariant_of_ledger (h.wellFormed.ledgers name mb hmb)
  have hrange : ∀ i ∈ matched, ∃ a, mb.messages[i]? = some a :=
    fun i hi => searchMatches_lt (hmatched ▸ hi)
  have hnodup : matched.Nodup := hmatched ▸ nodup_searchMatches _ mb key s.savedSearch
  refine ⟨sortedMatches_eq_none_iff hrange hnodup, fun order horder => ?_⟩
  have hperm := Criterion.sort_perm horder
  have hpairwise := Criterion.sort_pairwise_lt lawful_compareAt hnodup
    (fun i _ j _ hne => compareAt_ne_tie hinvariant hne) horder
  have hprecedes : (fun i j => compareAt lowercase mb criteria i j = some .lt) =
      PrecedesAt lowercase mb criteria := funext₂ fun i j => propext compareAt_eq_lt_iff
  refine ⟨?_, hperm, hprecedes ▸ hpairwise, fun order' hperm' hpairwise' => ?_⟩
  · have hfound : s.selected.bind (MailStore.mailbox s.store) = some mb := by
      rw [hselected]
      exact hmb
    have hsorted : (views.withSort lowercase).sortMatches mb criteria matched = order := by
      change (sortedMatches lowercase mb criteria matched).getD matched = order
      rw [horder, Option.getD_some]
    unfold Session.cmdSort
    rw [if_neg (by rw [hcharset]; exact Bool.false_ne_true), hfound]
    dsimp only
    rw [hmatched, hsorted]
  · rw [← hprecedes] at hpairwise'
    exact Criterion.eq_of_pairwise_lt lawful_compareAt (hperm'.trans hperm.symm) hpairwise' hpairwise

/-- Of two messages the longer one comes first in the reverse order of their sizes. -/
theorem sort_orders_matches_size :
    ∃ mb, (Session.opened ((MemoryStore.new.deliverRaw "INBOX" [97] [] 0).1.deliverRaw "INBOX"
        [98, 98] [] 0).1 true).store.mailbox "INBOX" = some mb ∧
      sortedMatches String.toLower mb [⟨true, .size⟩] [0, 1] = some [1, 0] ∧
      [1, 0].Pairwise (PrecedesAt String.toLower mb [⟨true, .size⟩]) := by
  have hreach : Reachable .blank (Session.opened ((MemoryStore.new.deliverRaw "INBOX" [97] []
      0).1.deliverRaw "INBOX" [98, 98] [] 0).1 true).store :=
    ((reachable_new .blank).op (.deliverRaw "INBOX" [97] [] 0) rfl).op
      (.deliverRaw "INBOX" [98, 98] [] 0) rfl
  have heval : ((Session.opened ((MemoryStore.new.deliverRaw "INBOX" [97] [] 0).1.deliverRaw "INBOX"
      [98, 98] [] 0).1 true).store.mailbox "INBOX").map (fun mb =>
        (searchMatches (Views.blank.withSort String.toLower) mb .all [],
          sortedMatches String.toLower mb [⟨true, .size⟩] [0, 1])) = some ([0, 1], some [1, 0]) := by
    decide +kernel
  obtain ⟨mb, hmb, heval⟩ := Option.map_eq_some_iff.mp heval
  obtain ⟨hmatched, hsorted⟩ := Prod.mk.inj heval
  have hcharset : badCharset none = false := rfl
  have horders := (sort_orders_matches hreach rfl hmb Views.blank "a" hcharset .all false
    hmatched).2 [1, 0] hsorted
  exact ⟨mb, hmb, hsorted, horders.2.2.1⟩

end Command
end Dmtap.Mail.Imap
