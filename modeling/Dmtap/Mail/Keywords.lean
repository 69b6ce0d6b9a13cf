import Dmtap.Mail.Ascii
import Dmtap.Mail.EmailGet
import Dmtap.Mail.Invariant

/-! Keywords through Email/set and Email/get. A keyword is written as a flag and read back from it;
what a request asks for is compared with what is shown afterwards. -/
namespace Dmtap.Mail.Jmap
open Lib

section Flags

def systemKeywords : List String := ["$seen", "$flagged", "$answered", "$draft", "$deleted"]

/-- The keyword that a flag stands for, in lower case. -/
def keywordName : Flag → Option String
  | .keyword name => some name.toLower
  | f => keywordOf f

/-- Whether a message has a keyword, shown or not. -/
def hasKeyword (m : Message) (n : String) : Bool := m.flags.any fun f => keywordName f == some n

/-- The keywords as Email/get shows them. -/
def shownKeywords (m : Message) : SortedMap String Json :=
  SortedMap.empty.insertAll (fun k => k) (fun _ => .bool true) (m.flags.filterMap keywordOf)

def shows (m : Message) (n : String) : Bool := ((shownKeywords m).get? n).isSome

theorem shows_iff {m : Message} {n : String} :
    shows m n = true ↔ ∃ f ∈ m.flags, keywordOf f = some n := by
  rw [← List.mem_filterMap]
  unfold shows shownKeywords
  by_cases hn : n ∈ m.flags.filterMap keywordOf
  · rw [SortedMap.get?_insertAll_of_mem _ (fun _ _ _ _ _ => rfl) hn]
    exact ⟨fun _ => hn, fun _ => rfl⟩
  · have hne : ∀ x ∈ m.flags.filterMap keywordOf, x ≠ n := by
      rintro x hx rfl
      exact hn hx
    rw [SortedMap.get?_insertAll_of_forall_ne _ hne]
    exact ⟨fun h => absurd h Bool.false_ne_true, fun h => absurd h hn⟩

theorem emailObject_keywords {views : BodyViews} {id mailbox : String} {m : Message} {o : Json}
    (h : emailObject views id mailbox m = some o) :
    o.get "keywords" = some (.obj (shownKeywords m).entries) := by
  unfold emailObject at h
  simp only [Option.bind_eq_bind, Option.bind_eq_some_iff, Option.some.injEq] at h
  obtain ⟨author, -, recipients, -, cc, -, rfl⟩ := h
  rfl

theorem keywordOf_mem {f : Flag} {n : String} (h : keywordOf f = some n) : n ∈ systemKeywords := by
  cases f with
  | recent | keyword => cases h
  | seen | answered | flagged | deleted | draft =>
    obtain rfl := Option.some.inj h
    decide

theorem keywordOf_inj {f g : Flag} {n : String} (hf : keywordOf f = some n)
    (hg : keywordOf g = some n) : f = g := by
  cases f with
  | recent | keyword => cases hf
  | seen | answered | flagged | deleted | draft =>
    obtain rfl := Option.some.inj hf
    cases g with
    | recent | keyword => cases hg
    | seen | answered | flagged | deleted | draft =>
      first
      | rfl
      | exact absurd hg (by decide)

theorem keywordOf_flagOfKeyword (kw : String) :
    keywordOf (flagOfKeyword kw) = if kw.toLower ∈ systemKeywords then some kw.toLower else none := by
  unfold flagOfKeyword
  split
  · next h => rw [h]; rfl
  · next h => rw [h]; rfl
  · next h => rw [h]; rfl
  · next h => rw [h]; rfl
  · next h => rw [h]; rfl
  · next h₁ h₂ h₃ h₄ h₅ =>
    have hother : kw.toLower ∉ systemKeywords := by
      simp only [systemKeywords, List.mem_cons, List.not_mem_nil, or_false, not_or]
      exact ⟨h₁, h₂, h₃, h₄, h₅⟩
    rw [if_neg hother]
    rfl

/-- The flag of a system keyword is set by its name alone. -/
theorem flagOfKeyword_eq_iff {f : Flag} {n : String} (hf : keywordOf f = some n) (kw : String) :
    flagOfKeyword kw = f ↔ kw.toLower = n := by
  have hkw := keywordOf_flagOfKeyword kw
  constructor
  · rintro rfl
    rw [hf] at hkw
    exact (Option.ite_none_right_eq_some.mp hkw.symm).2 |> Option.some.inj
  · rintro rfl
    rw [if_pos (keywordOf_mem hf)] at hkw
    exact keywordOf_inj hkw hf

theorem exists_keywordOf {n : String} (hn : n ∈ systemKeywords) : ∃ f, keywordOf f = some n := by
  simp only [systemKeywords, List.mem_cons, List.not_mem_nil, or_false] at hn
  rcases hn with rfl | rfl | rfl | rfl | rfl
  · exact ⟨.seen, rfl⟩
  · exact ⟨.flagged, rfl⟩
  · exact ⟨.answered, rfl⟩
  · exact ⟨.draft, rfl⟩
  · exact ⟨.deleted, rfl⟩

theorem shows_of_keywordOf {f : Flag} {n : String} (hf : keywordOf f = some n) (m : Message) :
    shows m n = m.flags.contains f := by
  rw [Bool.eq_iff_iff, shows_iff, List.contains_iff_mem]
  constructor
  · rintro ⟨g, hg, hn⟩
    rw [keywordOf_inj hf hn]
    exact hg
  · exact fun h => ⟨f, h, hf⟩

theorem shows_mem {m : Message} {n : String} (h : shows m n = true) : n ∈ systemKeywords := by
  obtain ⟨f, -, hf⟩ := shows_iff.mp h
  exact keywordOf_mem hf

theorem hasKeyword_of_shows {m : Message} {n : String} (h : shows m n = true) :
    hasKeyword m n = true := by
  obtain ⟨f, hmem, hf⟩ := shows_iff.mp h
  refine List.any_eq_true.mpr ⟨f, hmem, ?_⟩
  cases f with
  | recent | keyword => cases hf
  | seen | answered | flagged | deleted | draft => exact beq_iff_eq.mpr hf

end Flags

section Requests

/-- Whether an object of keywords has the name at all. -/
def gives (kw : Members) (n : String) : Bool := kw.any fun p => p.1.toLower == n

/-- Whether it asks for the keyword, which takes the value true. -/
def asks (kw : Members) (n : String) : Bool :=
  kw.any fun p => p.1.toLower == n && p.2.asBool == some true

/-- What a member of a patch says of a keyword. -/
def patchFor (n : String) (member : String × Json) : Option Json :=
  (stripPrefix "keywords/" member.1).bind fun kw => if kw.toLower = n then some member.2 else none

def patchesFor (n : String) (obj : Members) : List Json := obj.filterMap (patchFor n)

/-- The object that replaces the keywords. -/
def replacement (obj : Members) : Option Members := (obj.lookup "keywords").bind Json.asObject

/-- A value that adds a keyword is true, one that removes it is null or false. -/
def applyPatch (wanted : Bool) (v : Json) : Bool :=
  if v.asBool = some true then true else if v.clears then false else wanted

/-- Whether an update asks for a keyword of a message. -/
def requested (obj : Members) (m : Message) (n : String) : Bool :=
  (patchesFor n obj).foldl applyPatch
    (match replacement obj with
    | some kw => asks kw n
    | none => hasKeyword m n)

/-- The update asks for system keywords only, and a value other than true, false or null is not the
last word on any of them unless the keyword is asked for elsewhere. No other flag of the message
has the name of a system keyword. -/
structure ReadsBack (obj : Members) (m : Message) : Prop where
  system : ∀ n, requested obj m n = true → n ∈ systemKeywords
  patched : ∀ n ∈ systemKeywords, ∀ v, (patchesFor n obj).getLast? = some v →
    v.asBool ≠ some true → v.clears = false → requested obj m n = true
  replaced : ∀ n ∈ systemKeywords, patchesFor n obj = [] → ∀ kw, replacement obj = some kw →
    gives kw n = true → asks kw n = true
  kept : ∀ n ∈ systemKeywords, patchesFor n obj = [] → replacement obj = none →
    hasKeyword m n = true → shows m n = true

theorem contains_setFlag (m : Message) (f g : Flag) :
    (m.setFlag f).flags.contains g = (m.flags.contains g || g == f) := by
  unfold Message.setFlag
  by_cases h : m.flags.contains f = true
  · rw [if_pos h]
    by_cases hg : g = f
    · rw [hg, h, Bool.true_or]
    · rw [beq_eq_false_iff_ne.mpr hg, Bool.or_false]
  · rw [if_neg h, Bool.eq_iff_iff]
    simp

theorem contains_clearFlag (m : Message) (f g : Flag) :
    (m.clearFlag f).flags.contains g = (m.flags.contains g && g != f) := by
  rw [Bool.eq_iff_iff]
  simp [Message.clearFlag]

theorem shows_patchKeyword {n : String} (hn : n ∈ systemKeywords) (m : Message)
    (member : String × Json) :
    shows (patchKeyword m member) n = ((patchFor n member).map fun v => !v.clears).getD (shows m n) := by
  obtain ⟨f, hf⟩ := exists_keywordOf hn
  rw [shows_of_keywordOf hf, shows_of_keywordOf hf]
  unfold patchKeyword patchFor
  cases stripPrefix "keywords/" member.1 with
  | none => rfl
  | some kw =>
    have hflag := flagOfKeyword_eq_iff hf kw
    rw [Option.bind_some]
    dsimp only
    by_cases hkw : kw.toLower = n
    · rw [if_pos hkw, hflag.mpr hkw, Option.map_some, Option.getD_some]
      split
      · next hclears => rw [contains_clearFlag, bne_self_eq_false, Bool.and_false, hclears, Bool.not_true]
      · next hclears =>
        rw [contains_setFlag, beq_self_eq_true, Bool.or_true, Bool.eq_false_of_not_eq_true hclears,
          Bool.not_false]
    · have hother : f ≠ flagOfKeyword kw := fun heq => hkw (hflag.mp heq.symm)
      rw [if_neg hkw, Option.map_none, Option.getD_none]
      split
      · rw [contains_clearFlag, bne_iff_ne.mpr hother, Bool.and_true]
      · rw [contains_setFlag, beq_eq_false_iff_ne.mpr hother, Bool.or_false]

theorem shows_foldl_patchKeyword {n : String} (hn : n ∈ systemKeywords) (obj : Members)
    (m : Message) :
    shows (obj.foldl patchKeyword m) n =
      ((patchesFor n obj).getLast?.map fun v => !v.clears).getD (shows m n) := by
  induction obj generalizing m with
  | nil => rfl
  | cons member obj ih =>
    rw [List.foldl_cons, ih, shows_patchKeyword hn, patchesFor, patchesFor]
    cases hpatch : patchFor n member with
    | none =>
      rw [List.filterMap_cons_none hpatch]
      rfl
    | some v =>
      rw [List.filterMap_cons_some hpatch, List.getLast?_cons]
      cases (obj.filterMap (patchFor n)).getLast? with
      | none => rfl
      | some w => rfl

theorem shows_flagOfKeyword {n : String} (hn : n ∈ systemKeywords) {m : Message} {kw : Members}
    (h : m.flags = kw.map fun p => flagOfKeyword p.1) : shows m n = gives kw n := by
  obtain ⟨f, hf⟩ := exists_keywordOf hn
  have hname : ((fun g => f == g) ∘ fun p : String × Json => flagOfKeyword p.1) =
      fun p => p.1.toLower == n := by
    funext p
    rw [Function.comp_apply, Bool.eq_iff_iff, beq_iff_eq, beq_iff_eq, eq_comm,
      flagOfKeyword_eq_iff hf]
  rw [shows_of_keywordOf hf, h, gives, List.contains_eq_any_beq, List.any_map, hname]

/-- What is shown of a system keyword after an update. -/
theorem shows_patchMessage {n : String} (hn : n ∈ systemKeywords) (obj : Members) (m : Message) :
    shows (patchMessage obj m) n =
      ((patchesFor n obj).getLast?.map fun v => !v.clears).getD
        (match replacement obj with
        | some kw => gives kw n
        | none => shows m n) := by
  unfold patchMessage replacement
  rw [shows_foldl_patchKeyword hn]
  cases (obj.lookup "keywords").bind Json.asObject with
  | none => rfl
  | some kw =>
    have hgives (m' : Message) (h : m'.flags = kw.map fun p => flagOfKeyword p.1) :
        shows (m'.setFlag .recent) n = gives kw n := by
      obtain ⟨f, hf⟩ := exists_keywordOf hn
      have hrecent : f ≠ .recent := by
        rintro rfl
        cases hf
      rw [shows_of_keywordOf hf, contains_setFlag, beq_eq_false_iff_ne.mpr hrecent, Bool.or_false,
        ← shows_of_keywordOf hf, shows_flagOfKeyword hn h]
    dsimp only
    split
    · rw [hgives _ rfl]
    · rw [shows_flagOfKeyword hn rfl]

theorem gives_of_asks {kw : Members} {n : String} (h : asks kw n = true) : gives kw n = true := by
  obtain ⟨p, hp, hasks⟩ := List.any_eq_true.mp h
  exact List.any_eq_true.mpr ⟨p, hp, (Bool.and_eq_true_iff.mp hasks).1⟩

theorem requested_of_nil {obj : Members} {n : String} (h : patchesFor n obj = []) (m : Message) :
    requested obj m n =
      match replacement obj with
      | some kw => asks kw n
      | none => hasKeyword m n := by
  rw [requested, h, List.foldl_nil]

theorem requested_of_getLast? {obj : Members} {n : String} {v : Json}
    (h : (patchesFor n obj).getLast? = some v) (m : Message) :
    ∃ wanted, requested obj m n = applyPatch wanted v := by
  obtain ⟨front, hfront⟩ := List.getLast?_eq_some_iff.mp h
  rw [requested, hfront, List.foldl_concat]
  exact ⟨_, rfl⟩

/-- Exactly these updates are read back as they are asked for. -/
theorem shows_eq_requested_iff (obj : Members) (m : Message) :
    (∀ n, shows (patchMessage obj m) n = requested obj m n) ↔ ReadsBack obj m := by
  constructor
  · intro h
    refine ⟨fun n hn => shows_mem ((h n).trans hn), fun n hn v hv _ hclears => ?_,
      fun n hn hnil kw hkw hgives => ?_, fun n hn hnil hnone hhas => ?_⟩
    · rw [← h n, shows_patchMessage hn, hv, Option.map_some, Option.getD_some, hclears]
      rfl
    · have hshows := h n
      rw [shows_patchMessage hn, requested_of_nil hnil, hnil, hkw] at hshows
      exact hshows.symm.trans hgives
    · have hshows := h n
      rw [shows_patchMessage hn, requested_of_nil hnil, hnil, hnone] at hshows
      exact hshows.trans hhas
  · intro h n
    by_cases hn : n ∈ systemKeywords
    · rw [shows_patchMessage hn]
      cases hlast : (patchesFor n obj).getLast? with
      | none =>
        have hnil : patchesFor n obj = [] := List.getLast?_eq_none_iff.mp hlast
        rw [requested_of_nil hnil, Option.map_none, Option.getD_none]
        cases hreplacement : replacement obj with
        | none => exact Bool.eq_iff_iff.mpr ⟨hasKeyword_of_shows, h.kept n hn hnil hreplacement⟩
        | some kw => exact Bool.eq_iff_iff.mpr ⟨h.replaced n hn hnil kw hreplacement, gives_of_asks⟩
      | some v =>
        obtain ⟨wanted, hwanted⟩ := requested_of_getLast? hlast m
        rw [Option.map_some, Option.getD_some]
        by_cases htrue : v.asBool = some true
        · have hclears : v.clears = false := by
            cases v with
            | bool b =>
              obtain rfl := Option.some.inj htrue
              rfl
            | null | num | str | arr | obj => cases htrue
          rw [hwanted, applyPatch, if_pos htrue, hclears, Bool.not_false]
        · cases hclears : v.clears with
          | true => rw [hwanted, applyPatch, if_neg htrue, if_pos hclears, Bool.not_true]
          | false => rw [h.patched n hn v hlast htrue hclears, Bool.not_false]
    · have hshows : shows (patchMessage obj m) n = false :=
        Bool.eq_false_of_not_eq_true fun hs => hn (shows_mem hs)
      have hrequested : requested obj m n = false :=
        Bool.eq_false_of_not_eq_true fun hr => hn (h.system n hr)
      rw [hshows, hrequested]

end Requests

section Store
variable {store : MemoryStore} {id mailbox : String} {m : Message}

theorem parseEmailId_emailId {uid : ℕ} (huid : uid < 2 ^ 32) :
    parseEmailId (emailId mailbox uid) = some (mailbox, uid) := by
  unfold parseEmailId
  rw [rsplitOnce_emailId, Option.bind_eq_bind, Option.bind_some]
  dsimp only
  rw [parseU32, parseUnsigned_toString huid]
  rfl

/-- An email is found at the position of its UID. -/
theorem findEmail_eq_some_iff (h : store.WellFormed) :
    findEmail store id = some (mailbox, m) ↔ ∃ (mb : Mailbox) (i : ℕ), parseEmailId id = some (mailbox, m.uid) ∧
      store.mailbox mailbox = some mb ∧ mb.messages[i]? = some m := by
  have hindex {mb : Mailbox} (hmb : store.mailbox mailbox = some mb) (uid i : ℕ) :
      mb.indexOfUid uid = some i ↔ mb.messages[i]?.map Message.uid = some uid :=
    (Mailbox.invariant_of_ledger (h.ledgers mailbox mb hmb)).indexOfUid_eq_some_iff uid i
  constructor
  · intro hfind
    unfold findEmail at hfind
    simp only [Option.bind_eq_bind, Option.bind_eq_some_iff, Option.some.injEq, Prod.mk.injEq] at hfind
    obtain ⟨⟨name, uid⟩, hid, mb, hmb, msg, hmsg, rfl, rfl⟩ := hfind
    obtain ⟨i, hi, hm⟩ := Option.bind_eq_some_iff.mp hmsg
    have huid := (hindex hmb uid i).mp hi
    rw [hm, Option.map_some, Option.some.injEq] at huid
    exact ⟨mb, i, by rw [hid, huid], hmb, hm⟩
  · rintro ⟨mb, i, hid, hmb, hm⟩
    have hi := (hindex hmb m.uid i).mpr (by rw [hm, Option.map_some])
    have hfind : mb.byUid m.uid = some m := by
      rw [Mailbox.byUid, hi, Option.bind_some, hm]
    have hmailbox : MailStore.mailbox store mailbox = some mb := hmb
    unfold findEmail
    rw [hid, Option.bind_eq_bind, Option.bind_some]
    dsimp only
    rw [hmailbox, Option.bind_eq_bind, Option.bind_some, hfind]
    rfl

/-- An Email/set that updates one email. -/
def updateArgs (id : String) (obj : Members) : Json := .obj [("update", .obj [(id, .obj obj)])]

/-- An Email/set that creates one email. -/
def createArgs (creation : String) (obj : Members) : Json :=
  .obj [("create", .obj [(creation, .obj obj)])]

variable (views : Views MemoryStore) (account : String)

theorem emailSet_update (obj : Members) :
    (emailSet views store account (updateArgs id obj)).1 =
      (updateEmail (SetState.start store) (id, .obj obj)).store := by
  simp [emailSet, updateArgs, membersOf, stringsOf, Json.get, Json.asObject, List.lookup_cons]

theorem emailSet_create (creation : String) (obj : Members) :
    (emailSet views store account (createArgs creation obj)).1 =
      (createEmail views (SetState.start store) (creation, .obj obj)).store := by
  simp [emailSet, createArgs, membersOf, stringsOf, Json.get, Json.asObject, List.lookup_cons]

theorem wellFormed_emailSet (h : store.WellFormed) (args : Json) :
    (emailSet views store account args).1.WellFormed := by
  obtain ⟨calls, hpath⟩ := leads_emailSet views store account args
  exact hpath.wellFormed h

/-- No message in front of one has its UID. -/
theorem findIdx?_uid {mb : Mailbox} (h : mb.Invariant) {i : ℕ} (hm : mb.messages[i]? = some m) :
    mb.messages.findIdx? (fun x => x.uid = m.uid) = some i := by
  obtain ⟨hi, rfl⟩ := List.getElem?_eq_some_iff.mp hm
  rw [List.findIdx?_eq_some_iff_getElem]
  refine ⟨hi, decide_eq_true rfl, fun j hj => ?_⟩
  have hlt := List.pairwise_iff_getElem.mp h.ascending j i (by omega) hi hj
  have hne : mb.messages[j].uid ≠ mb.messages[i].uid := by omega
  rw [decide_eq_false hne]
  exact Bool.false_ne_true

/-- The updated message is found under its id, with the patches applied to its flags. -/
theorem findEmail_update (h : store.WellFormed) (hfind : findEmail store id = some (mailbox, m))
    (obj : Members) : ∃ m', findEmail (emailSet views store account (updateArgs id obj)).1 id =
      some (mailbox, m') ∧ m'.flags = (patchMessage obj m).flags := by
  obtain ⟨mb, i, hid, hmb, hm⟩ := (findEmail_eq_some_iff h).mp hfind
  have hinvariant := Mailbox.invariant_of_ledger (h.ledgers mailbox mb hmb)
  have hfirst := findIdx?_uid hinvariant hm
  have hstore : (emailSet views store account (updateArgs id obj)).1 =
      store.put mailbox (mb.touch i (patchMessage obj)) := by
    rw [emailSet_update]
    unfold updateEmail applyEmailUpdate
    dsimp only
    rw [hid]
    dsimp only
    rw [show (SetState.start store).store = store from rfl, MemoryStore.mailboxMut_of_mailbox hmb]
    dsimp only
    rw [hfirst]
    rfl
  have hwell := wellFormed_emailSet views account h (updateArgs id obj)
  rw [hstore] at hwell ⊢
  refine ⟨{ patchMessage obj m with modseq := mb.highestModseq + 1 },
    (findEmail_eq_some_iff hwell).mpr ⟨mb.touch i (patchMessage obj), i, ?_, ?_, ?_⟩, rfl⟩
  · rw [hid, onlyFlags_patchMessage obj m]
  · rw [MemoryStore.mailbox_put, if_pos rfl]
  · rw [Mailbox.touch, List.getElem?_modify_eq, hm]
    rfl

/-- The new message is found under the id it is given, with the flags of the keywords. -/
theorem findEmail_create (h : store.WellFormed) {mb : Mailbox} {obj : Members}
    (hmb : store.mailbox (destination store (.obj obj)) = some mb) (huid : mb.uidNext < 2 ^ 32)
    (creation : String) :
    ∃ m, findEmail (emailSet views store account (createArgs creation obj)).1
        (emailId (destination store (.obj obj)) mb.uidNext) =
      some (destination store (.obj obj), m) ∧
      m.flags = ((replacement obj).getD []).map fun p => flagOfKeyword p.1 := by
  have hexists : (MailStore.mailbox store (destination store (.obj obj))).isNone = false := by
    change (store.mailbox _).isNone = false
    rw [hmb]
    rfl
  have hstore : (emailSet views store account (createArgs creation obj)).1 =
      store.put (destination store (.obj obj)) (mb.append (views.compose (.obj obj))
        (((replacement obj).getD []).map fun p => flagOfKeyword p.1) 0).2 := by
    rw [emailSet_create]
    unfold createEmail composeEmail
    dsimp only
    rw [show (SetState.start store).store = store from rfl, hexists, if_neg Bool.false_ne_true,
      MemoryStore.mailboxMut_of_mailbox hmb]
    rfl
  have hwell := wellFormed_emailSet views account h (createArgs creation obj)
  rw [hstore] at hwell ⊢
  refine ⟨Message.new mb.uidNext (((replacement obj).getD []).map fun p => flagOfKeyword p.1) 0
    (mb.highestModseq + 1) (views.compose (.obj obj)),
    (findEmail_eq_some_iff hwell).mpr ⟨(mb.append (views.compose (.obj obj))
      (((replacement obj).getD []).map fun p => flagOfKeyword p.1) 0).2, mb.messages.length,
      parseEmailId_emailId huid, ?_, ?_⟩, rfl⟩
  · rw [MemoryStore.mailbox_put, if_pos rfl]
  · exact List.getElem?_concat_length

/-- An object that asks for system keywords only, and for each of them that it names. -/
def AsksForAll (kw : Members) : Prop :=
  (∀ n, asks kw n = true → n ∈ systemKeywords) ∧
    ∀ n ∈ systemKeywords, gives kw n = true → asks kw n = true

theorem shows_eq_asks_iff {kw : Members} (hm : m.flags = kw.map fun p => flagOfKeyword p.1) :
    (∀ n, shows m n = asks kw n) ↔ AsksForAll kw := by
  constructor
  · intro h
    refine ⟨fun n hn => shows_mem ((h n).trans hn), fun n hn hgives => ?_⟩
    rw [← h n, shows_flagOfKeyword hn hm]
    exact hgives
  · rintro ⟨hsystem, hall⟩ n
    by_cases hn : n ∈ systemKeywords
    · rw [shows_flagOfKeyword hn hm]
      exact Bool.eq_iff_iff.mpr ⟨hall n hn, gives_of_asks⟩
    · have hshows : shows m n = false := Bool.eq_false_of_not_eq_true fun hs => hn (shows_mem hs)
      have hasks : asks kw n = false := Bool.eq_false_of_not_eq_true fun ha => hn (hsystem n ha)
      rw [hshows, hasks]

/-- Keywords are read back as they were written exactly by the updates and new emails that ask for
system keywords and give no other values to them. -/
theorem keywords_readBack_iff {r : Renderers} (hstore : Reachable r store) :
    (∀ id mailbox m obj, findEmail store id = some (mailbox, m) →
      ((∃ m', findEmail (emailSet views store account (updateArgs id obj)).1 id =
        some (mailbox, m') ∧ ∀ n, shows m' n = requested obj m n) ↔ ReadsBack obj m)) ∧
    (∀ creation obj mb, store.mailbox (destination store (.obj obj)) = some mb →
      mb.uidNext < 2 ^ 32 →
      ((∃ m', findEmail (emailSet views store account (createArgs creation obj)).1
          (emailId (destination store (.obj obj)) mb.uidNext) =
        some (destination store (.obj obj), m') ∧
          ∀ n, shows m' n = asks ((replacement obj).getD []) n) ↔
        AsksForAll ((replacement obj).getD []))) ∧
    ∀ body id mailbox m o, emailObject body id mailbox m = some o →
      o.get "keywords" = some (.obj (shownKeywords m).entries) := by
  refine ⟨fun id mailbox m obj hfind => ?_, fun creation obj mb hmb huid => ?_,
    fun _ _ _ _ _ => emailObject_keywords⟩
  · obtain ⟨m', hm', hflags⟩ := findEmail_update views account hstore.wellFormed hfind obj
    have hshows (n : String) : shows m' n = shows (patchMessage obj m) n := by
      rw [shows, shows, shownKeywords, hflags, shownKeywords]
    rw [← shows_eq_requested_iff]
    simp [hm', hshows]
  · obtain ⟨m', hm', hflags⟩ :=
      findEmail_create views account hstore.wellFormed hmb huid creation
    rw [← shows_eq_asks_iff hflags]
    simp [hm']

def seenStore : MemoryStore := (MemoryStore.new.deliverRaw "INBOX" [97] [.seen] 0).1

def seenMessage : Message := Message.new 1 [.seen] 0 2 [97]

theorem asksForAll_seen : AsksForAll [("$Seen", .bool true)] := by
  have hlower : "$Seen".toLower = "$seen" := toLower_of_toList (by decide)
  have hasks (n : String) : asks [("$Seen", .bool true)] n = ("$seen" == n) := by
    rw [asks, List.any_cons, hlower]
    exact (Bool.or_false _).trans (Bool.and_true _)
  have hgives (n : String) : gives [("$Seen", .bool true)] n = ("$seen" == n) := by
    rw [gives, List.any_cons, hlower]
    exact Bool.or_false _
  refine ⟨fun n hn => ?_, fun n _ hn => ?_⟩
  · rw [hasks, beq_iff_eq] at hn
    rw [← hn]
    decide
  · rw [hasks, ← hgives]
    exact hn

theorem readsBack_flagged : ReadsBack [("keywords/$Flagged", .bool true)] seenMessage := by
  have hprefix : stripPrefix "keywords/" "keywords/$Flagged" = some "$Flagged" := by decide
  have hlower : "$Flagged".toLower = "$flagged" := toLower_of_toList (by decide)
  have hpatches (n : String) : patchesFor n [("keywords/$Flagged", .bool true)] =
      if "$flagged" = n then [.bool true] else [] := by
    unfold patchesFor patchFor
    rw [List.filterMap_cons, hprefix, Option.bind_some, hlower]
    split_ifs <;> rfl
  have hhas {n : String} (hn : hasKeyword seenMessage n = true) : n = "$seen" := by
    have hname : (some "$seen" == some n || false) = true := hn
    have hseen : "$seen" = n := by simpa using hname
    exact hseen.symm
  refine ⟨fun n hn => ?_, fun n _ v hv htrue => ?_, fun n _ _ kw hkw => ?_, fun n _ _ _ hn => ?_⟩
  · unfold requested at hn
    rw [hpatches] at hn
    split_ifs at hn with hflagged
    · rw [← hflagged]
      decide
    · rw [hhas hn]
      decide
  · rw [hpatches] at hv
    split_ifs at hv with hflagged
    · obtain rfl := Option.some.inj hv
      exact absurd rfl htrue
    · cases hv
  · cases hkw
  · rw [hhas hn]
    decide

theorem keywords_readBack_seen :
    (∃ m, findEmail (emailSet ⟨fun _ => [], fun _ _ _ _ => none⟩ MemoryStore.new "a"
        (createArgs "k" [("keywords", .obj [("$Seen", .bool true)])])).1 "Drafts|1" =
      some ("Drafts", m) ∧ shows m "$seen" = true) ∧
    ∃ m, findEmail (emailSet ⟨fun _ => [], fun _ _ _ _ => none⟩ seenStore "a"
        (updateArgs "INBOX|1" [("keywords/$Flagged", .bool true)])).1 "INBOX|1" =
      some ("INBOX", m) ∧ shows m "$flagged" = true ∧ shows m "$seen" = true := by
  constructor
  · obtain ⟨m, hm, hshows⟩ := ((keywords_readBack_iff ⟨fun _ => [], fun _ _ _ _ => none⟩ "a"
      (reachable_new Renderers.blank)).2.1 "k" [("keywords", .obj [("$Seen", .bool true)])]
      (Mailbox.new "Drafts" (some .drafts)) (by decide +kernel) (by decide)).mpr asksForAll_seen
    exact ⟨m, hm, (hshows "$seen").trans (by decide +kernel)⟩
  · have hreach : Reachable .blank seenStore :=
      (reachable_new .blank).op (.deliverRaw "INBOX" [97] [.seen] 0) rfl
    have hfind : findEmail seenStore "INBOX|1" = some ("INBOX", seenMessage) := by decide +kernel
    obtain ⟨m, hm, hshows⟩ := ((keywords_readBack_iff ⟨fun _ => [], fun _ _ _ _ => none⟩ "a"
      hreach).1 "INBOX|1" "INBOX" seenMessage _ hfind).mpr readsBack_flagged
    exact ⟨m, hm, (hshows "$flagged").trans (by decide +kernel),
      (hshows "$seen").trans (by decide +kernel)⟩

/-- A custom keyword is stored and not shown. -/
theorem keywords_readBack_forwarded :
    asks [("$forwarded", .bool true)] "$forwarded" = true ∧
    (findEmail (emailSet ⟨fun _ => [], fun _ _ _ _ => none⟩ MemoryStore.new "a"
        (createArgs "k" [("keywords", .obj [("$forwarded", .bool true)])])).1 "Drafts|1").map
      (fun p => (shows p.2 "$forwarded", hasKeyword p.2 "$forwarded")) = some (false, true) := by
  decide +kernel

end Store
end Dmtap.Mail.Jmap
