import Dmtap.Mail.Journal

/-! What leads from one store to another: paths of edits, and paths of any calls. -/
namespace Dmtap.Mail
open Lib

/-- A change that touches the flags of a message and nothing else. -/
def OnlyFlags (f : Message → Message) : Prop := ∀ m, f m = { m with flags := (f m).flags }

namespace OnlyFlags
variable {f g : Message → Message}

theorem setFlag (flag : Flag) : OnlyFlags fun m => m.setFlag flag := by
  intro m
  unfold Message.setFlag
  by_cases h : m.flags.contains flag
  · simp only [if_pos h]
  · simp only [if_neg h]

theorem clearFlag (flag : Flag) : OnlyFlags fun m => m.clearFlag flag := fun _ => rfl

theorem comp (hg : OnlyFlags g) (hf : OnlyFlags f) : OnlyFlags fun m => g (f m) := by
  intro m
  have hfm := hf m
  have hgm := hg (f m)
  change g (f m) = { m with flags := (g (f m)).flags }
  rw [hgm]
  dsimp only
  rw [hfm]

theorem foldl {α : Type} {f : Message → α → Message} (h : ∀ a, OnlyFlags fun m => f m a)
    (l : List α) : OnlyFlags fun m => l.foldl f m := by
  induction l with
  | nil => exact fun _ => rfl
  | cons a l ih => exact ih.comp (h a)

theorem ite {c : Message → Prop} [DecidablePred c] (hf : OnlyFlags f) (hg : OnlyFlags g) :
    OnlyFlags fun m => if c m then f m else g m := by
  intro m
  by_cases h : c m
  · simpa only [if_pos h] using hf m
  · simpa only [if_neg h] using hg m

theorem id : OnlyFlags fun m => m := fun _ => rfl

end OnlyFlags

namespace Mailbox

theorem Edits.of_edit {mb mb' : Mailbox} (h : Edit mb mb') : Edits mb mb' :=
  Relation.ReflTransGen.single h

theorem edits_touch {mb : Mailbox} {i : ℕ} {m : Message} {f : Message → Message}
    (h : mb.messages[i]? = some m) (hf : OnlyFlags f) : mb.Edits (mb.touch i f) :=
  Edits.of_edit (Edit.touch i m f h (hf m))

/-- A loop edits when each turn of it does. -/
theorem edits_foldl {α β : Type} (mailbox : β → Mailbox) {f : β → α → β}
    (h : ∀ b a, (mailbox b).Edits (mailbox (f b a))) (l : List α) (b : β) :
    (mailbox b).Edits (mailbox (l.foldl f b)) := by
  induction l generalizing b with
  | nil => exact Relation.ReflTransGen.refl
  | cons a l ih => exact (h b a).trans (ih (f b a))

end Mailbox

/-- What a path of edits leads to. -/
def EditedTo (s s' : MemoryStore) : Prop :=
  ∃ names : List String, Path s (names.map Call.edit) s'

/-- What any path leads to. -/
def Leads (s s' : MemoryStore) : Prop := ∃ calls, Path s calls s'

theorem EditedTo.refl (s : MemoryStore) : EditedTo s s := ⟨[], .nil s⟩

theorem EditedTo.trans {s s' s'' : MemoryStore} (h : EditedTo s s') (h' : EditedTo s' s'') :
    EditedTo s s'' := by
  obtain ⟨names, hpath⟩ := h
  obtain ⟨names', hpath'⟩ := h'
  refine ⟨names ++ names', ?_⟩
  rw [List.map_append]
  exact hpath.append hpath'

theorem EditedTo.leads {s s' : MemoryStore} (h : EditedTo s s') : Leads s s' := by
  obtain ⟨names, hpath⟩ := h
  exact ⟨_, hpath⟩

theorem Leads.refl (s : MemoryStore) : Leads s s := ⟨[], .nil s⟩

theorem Leads.trans {s s' s'' : MemoryStore} (h : Leads s s') (h' : Leads s' s'') :
    Leads s s'' := by
  obtain ⟨calls, hpath⟩ := h
  obtain ⟨calls', hpath'⟩ := h'
  exact ⟨calls ++ calls', hpath.append hpath'⟩

/-- A loop over arguments leads somewhere when each turn of it does. -/
theorem leads_foldl {α β : Type} (store : β → MemoryStore) {f : β → α → β}
    (h : ∀ b a, Leads (store b) (store (f b a))) (l : List α) (b : β) :
    Leads (store b) (store (l.foldl f b)) := by
  induction l generalizing b with
  | nil => exact Leads.refl _
  | cons a l ih => exact (h b a).trans (ih (f b a))

section Store
variable {s : MemoryStore} {name : String} {mb mb' : Mailbox} {write : Mailbox → MemoryStore}

theorem MemoryStore.mailboxMut_eq_some (h : MailStore.mailboxMut s name = some (mb, write)) :
    s.mailbox name = some mb ∧ write = s.put name := by
  obtain ⟨mb₀, hmb₀, heq⟩ := Option.map_eq_some_iff.mp h
  obtain ⟨rfl, rfl⟩ := Prod.mk.inj heq
  exact ⟨hmb₀, rfl⟩

/-- An edited mailbox written back. -/
theorem MemoryStore.mailboxMut_of_mailbox (h : s.mailbox name = some mb) :
    MailStore.mailboxMut s name = some (mb, s.put name) := by
  change (s.mailbox name).map _ = _
  rw [h]
  rfl

theorem editedTo_write (h : MailStore.mailboxMut s name = some (mb, write))
    (hedits : mb.Edits mb') : EditedTo s (write mb') := by
  obtain ⟨hmb, rfl⟩ := MemoryStore.mailboxMut_eq_some h
  exact ⟨[name], Path.single (Step.edit hmb hedits)⟩

theorem leads_create (s : MemoryStore) (name : String) : Leads s (MailStore.create s name).1 := by
  change Leads s (s.create name).1
  unfold MemoryStore.create
  cases h : s.mailbox name with
  | some mb => exact Leads.refl s
  | none => exact ⟨_, Path.single (Step.create h)⟩

theorem leads_delete (s : MemoryStore) (name : String) : Leads s (MailStore.delete s name).1 := by
  change Leads s (s.delete name).1
  unfold MemoryStore.delete
  by_cases hinbox : name.toLower = "inbox"
  · rw [if_pos hinbox]
    exact Leads.refl s
  · rw [if_neg hinbox]
    cases h : s.mailbox name with
    | none => exact Leads.refl s
    | some mb => exact ⟨_, Path.single (Step.delete h)⟩

theorem leads_rename (s : MemoryStore) (source target : String) :
    Leads s (MailStore.rename s source target).1 := by
  change Leads s (s.rename source target).1
  unfold MemoryStore.rename
  by_cases hinbox : source.toLower = "inbox"
  · rw [if_pos hinbox]
    exact Leads.refl s
  · rw [if_neg hinbox]
    cases htarget : s.mailbox target with
    | some mb => exact Leads.refl s
    | none =>
      cases h : s.mailbox source with
      | none => exact Leads.refl s
      | some mb => exact ⟨_, Path.single (Step.rename h htarget)⟩

theorem MemoryStore.deliverRaw_of_mailbox (h : s.mailbox name = some mb) (raw : Bytes)
    (flags : List Flag) (date : ℕ) :
    (s.deliverRaw name raw flags date).1 = s.put name (mb.append raw flags date).2 := by
  unfold MemoryStore.deliverRaw MemoryStore.mailboxMut
  rw [h]
  rfl

theorem editedTo_deliverRaw (s : MemoryStore) (mailbox : String) (raw : Bytes) (flags : List Flag)
    (date : ℕ) : EditedTo s (s.deliverRaw mailbox raw flags date).1 := by
  unfold MemoryStore.deliverRaw
  cases h : s.mailboxMut mailbox with
  | none => exact EditedTo.refl s
  | some p =>
    exact editedTo_write h (Mailbox.Edits.of_edit (Mailbox.Edit.append raw flags date))

theorem editedTo_deliverMote (render : Mote.Payload → ℕ → Bytes) (s : MemoryStore)
    (payload : Mote.Payload) (mailbox : String) (ts : ℕ) :
    EditedTo s (s.deliverMote render payload mailbox ts).1 := by
  unfold MemoryStore.deliverMote
  dsimp only
  by_cases hsensitive : payload.headers.sensitive = some true
  · rw [if_pos hsensitive]
    exact EditedTo.refl s
  · rw [if_neg hsensitive]
    cases h : s.mailboxMut mailbox with
    | none => exact EditedTo.refl s
    | some p =>
      exact editedTo_write h (Mailbox.Edits.of_edit (Mailbox.Edit.append _ _ ts))

end Store

end Dmtap.Mail
