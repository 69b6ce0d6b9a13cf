import Dmtap.Lib.Buckets
import Dmtap.Lib.UnionFind
import Dmtap.Mail.Dates
import Dmtap.Mail.EncodedWords
import Dmtap.Mail.Imap.Command

/-! THREAD: the matched messages in groups, by subject or along their references. -/
namespace Dmtap.Mail.Imap
open Lib

section Messages

def parseDateYmd (date : String) : Option (ℤ × ℤ × ℤ) := do
  let toks := splitWhitespace (String.ofList (date.toList.map fun c => if c = ',' then ' ' else c))
  let first ← toks.head?
  let toks := if (monthNum first).isNone && (parseI64 first).isNone then toks.tail else toks
  let day ← toks[0]?.bind parseI64
  let mon ← toks[1]?.bind monthNum
  let year ← toks[2]?.bind parseI64
  some (year, mon, day)

/-- The date header, else the day of arrival. -/
def sortDate (m : Message) : ℤ × ℤ × ℤ :=
  (((ParsedMessage.parse m.raw).header "Date").bind parseDateYmd).getD (ymdFromMs m.internalDate)

/-- Strip the marks of replies and forwards; each takes at least three characters. -/
def stripReplies : ℕ → String → String
  | 0, s => s
  | fuel + 1, s =>
    let t := trimStart s
    match (stripPrefix "re:" t).or ((stripPrefix "fwd:" t).or (stripPrefix "fw:" t)) with
    | some rest => stripReplies fuel (trimStart rest)
    | none => s

/-- The subject without marks, in small letters. `lowercase` is the mapping of all of Unicode. -/
def baseSubject (lowercase : String → String) (m : Message) : String :=
  let raw := lowercase
    (decodeEncodedWords (((ParsedMessage.parse m.raw).header "Subject").getD ""))
  stripReplies (trim raw).length (trim raw)

def isAngle (c : Char) : Bool := c == '<' || c == '>'

def msgId (m : Message) : Option String :=
  ((((ParsedMessage.parse m.raw).header "Message-ID").or
    ((ParsedMessage.parse m.raw).header "Message-Id")).map fun s =>
      String.ofList (((trim s).toList.dropWhile isAngle).reverse.dropWhile isAngle).reverse).filter
    fun s => s ≠ ""

def msgRefs (m : Message) : List String :=
  ["In-Reply-To", "References"].flatMap fun h =>
    match (ParsedMessage.parse m.raw).header h with
    | none => []
    | some v =>
      (((v.toList.splitOnP fun c => isAngle c || isWhitespace c).map fun tok =>
        trim (String.ofList tok)).filter fun t => t ≠ "" && t.toList.contains '@')

end Messages

section Groups
variable (mb : Mailbox)

def groupBySubject (lowercase : String → String) (matched : List ℕ) :
    Option (List (List ℕ)) := do
  let bySubject ← matched.foldlM (fun (m : SortedMap String (List ℕ)) i => do
    let msg ← mb.messages[i]?
    some (m.push (baseSubject lowercase msg) i)) SortedMap.empty
  some bySubject.values

/-- The first position that bears each id. -/
def idToPos (matched : List ℕ) : Option (SortedMap String ℕ) :=
  matched.zipIdx.foldlM (fun m p => do
    let msg ← mb.messages[p.1]?
    match msgId msg with
    | some mid => some (m.orInsert mid p.2)
    | none => some m) SortedMap.empty

/-- Link a position to the bearers of the ids it references. -/
def linkRefs (ids : SortedMap String ℕ) (pos : ℕ) (refs : List String) (parent : List ℕ) :
    Option (List ℕ) :=
  refs.foldlM (fun parent reff =>
    match ids.get? reff with
    | some other => UnionFind.link parent pos other
    | none => some parent) parent

/-- Put the positions in buckets by their roots. -/
def fillBuckets (matched : List ℕ) (parent : List ℕ) (positions : List ℕ) :
    Option (List ℕ × SortedMap ℕ (List ℕ)) :=
  positions.foldlM (fun acc pos => do
    let (root, parent) ← UnionFind.find acc.1 pos
    let i ← matched[pos]?
    some (parent, acc.2.push root i)) (parent, SortedMap.empty)

def groupByReferences (matched : List ℕ) : Option (List (List ℕ)) := do
  let ids ← idToPos mb matched
  let parent ← matched.zipIdx.foldlM (fun parent p => do
    let msg ← mb.messages[p.1]?
    linkRefs ids p.2 (msgRefs msg) parent) (List.range matched.length)
  let (_, buckets) ← fillBuckets matched parent (List.range matched.length)
  some buckets.values

def dateLt (a b : ℤ × ℤ × ℤ) : Bool :=
  a.1 < b.1 || (a.1 == b.1 && (a.2.1 < b.2.1 || (a.2.1 == b.2.1 && a.2.2 < b.2.2)))

/-- No date comes first. -/
def optDateLe : Option (ℤ × ℤ × ℤ) → Option (ℤ × ℤ × ℤ) → Bool
  | none, _ => true
  | some _, none => false
  | some a, some b => !dateLt b a

def dateAt (i : ℕ) : Option (ℤ × ℤ × ℤ) := mb.messages[i]?.map sortDate

/-- A thread in the order of its dates, and then of the messages. -/
def sortThread (g : List ℕ) : List ℕ :=
  g.insertionSort fun a b =>
    (optDateLe (dateAt mb a) (dateAt mb b) && (!optDateLe (dateAt mb b) (dateAt mb a) || a ≤ b)) =
      true

/-- The threads, sorted within and then by their first dates. -/
def sortThreads (groups : List (List ℕ)) : List (List ℕ) :=
  (groups.map (sortThread mb)).insertionSort fun a b =>
    optDateLe (a.head?.bind (dateAt mb)) (b.head?.bind (dateAt mb)) = true

/-- The threads of the matched messages; none where an index is out of range or a loop does not
end. -/
def buildThreads (lowercase : String → String) (matched : List ℕ) (algo : ThreadAlgorithm) :
    Option (List (List ℕ)) := do
  let groups ←
    match algo with
    | .orderedSubject => groupBySubject mb lowercase matched
    | .references => groupByReferences mb matched
  some (sortThreads mb groups)

end Groups

section Sorting
variable (mb : Mailbox) (groups : List (List ℕ))

theorem sortThread_perm (g : List ℕ) : (sortThread mb g).Perm g := List.perm_insertionSort _ g

theorem flatten_sortThreads : (sortThreads mb groups).flatten.Perm groups.flatten := by
  have hwithin : (groups.map (sortThread mb)).flatten.Perm groups.flatten := by
    induction groups with
    | nil => exact List.Perm.refl _
    | cons g groups ih =>
      rw [List.map_cons, List.flatten_cons, List.flatten_cons]
      exact (sortThread_perm mb g).append ih
  exact (List.Perm.flatten (List.perm_insertionSort _ _)).trans hwithin

theorem mem_sortThreads {g : List ℕ} :
    g ∈ sortThreads mb groups ↔ ∃ g' ∈ groups, sortThread mb g' = g := by
  unfold sortThreads
  rw [List.mem_insertionSort, List.mem_map]

theorem ne_nil_of_mem_sortThreads (h : ∀ g ∈ groups, g ≠ []) :
    ∀ g ∈ sortThreads mb groups, g ≠ [] := by
  intro g hg hnil
  obtain ⟨g', hg', heq⟩ := (mem_sortThreads mb groups).mp hg
  have hperm := sortThread_perm mb g'
  rw [heq, hnil] at hperm
  exact h g' hg' hperm.nil_eq.symm

/-- Sorting leaves together what was together. -/
theorem share_sortThreads (a b : ℕ) :
    (∃ g ∈ sortThreads mb groups, a ∈ g ∧ b ∈ g) ↔ ∃ g ∈ groups, a ∈ g ∧ b ∈ g := by
  constructor
  · intro h
    obtain ⟨g, hg, ha, hb⟩ := h
    obtain ⟨g', hg', heq⟩ := (mem_sortThreads mb groups).mp hg
    have hperm := sortThread_perm mb g'
    rw [heq] at hperm
    exact ⟨g', hg', hperm.mem_iff.mp ha, hperm.mem_iff.mp hb⟩
  · intro h
    obtain ⟨g, hg, ha, hb⟩ := h
    have hperm := sortThread_perm mb g
    exact ⟨sortThread mb g, (mem_sortThreads mb groups).mpr ⟨g, hg, rfl⟩,
      hperm.mem_iff.mpr ha, hperm.mem_iff.mpr hb⟩

end Sorting

section Subject
variable {mb : Mailbox} {matched : List ℕ}

theorem exists_message (hrange : ∀ i ∈ matched, i < mb.messages.length) {i : ℕ}
    (hi : i ∈ matched) : ∃ m, mb.messages[i]? = some m :=
  ⟨_, List.getElem?_eq_getElem (hrange i hi)⟩

/-- By induction on the matched indices, whatever is filed under its subject already. -/
theorem foldlM_push_subject (lowercase : String → String)
    (hrange : ∀ i ∈ matched, i < mb.messages.length) {l : List (String × ℕ)}
    {m : SortedMap String (List ℕ)} (hm : m.Holds l) :
    ∃ l' m', matched.foldlM (fun (m : SortedMap String (List ℕ)) i => do
        let msg ← mb.messages[i]?
        some (m.push (baseSubject lowercase msg) i)) m = some m' ∧
      m'.Holds l' ∧ l'.map Prod.snd = l.map Prod.snd ++ matched := by
  induction matched generalizing l m with
  | nil => exact ⟨l, m, rfl, hm, (List.append_nil _).symm⟩
  | cons i matched ih =>
    obtain ⟨msg, hmsg⟩ := exists_message hrange List.mem_cons_self
    have hrest : ∀ j ∈ matched, j < mb.messages.length := fun j hj =>
      hrange j (List.mem_cons_of_mem i hj)
    obtain ⟨l', m', hfold, hholds, hitems⟩ := ih hrest (hm.push (baseSubject lowercase msg) i)
    refine ⟨l', m', ?_, hholds, ?_⟩
    · rw [List.foldlM_cons, hmsg]
      exact hfold
    · rw [hitems, List.map_append, List.append_assoc]
      rfl

theorem groupBySubject_spec (lowercase : String → String)
    (hrange : ∀ i ∈ matched, i < mb.messages.length) :
    ∃ groups, groupBySubject mb lowercase matched = some groups ∧ groups.flatten.Perm matched ∧
      ∀ g ∈ groups, g ≠ [] := by
  obtain ⟨l', m', hfold, hholds, hitems⟩ :=
    foldlM_push_subject lowercase hrange SortedMap.holds_empty
  refine ⟨m'.values, ?_, ?_, fun g hg => hholds.ne_nil hg⟩
  · unfold groupBySubject
    rw [hfold]
    rfl
  · have hall := hholds.all
    rw [hitems] at hall
    exact hall

end Subject

section References
variable {mb : Mailbox} {matched : List ℕ}

/-- The message at an index bears an id. -/
def bears (mb : Mailbox) (id : String) (i : ℕ) : Bool := mb.messages[i]?.bind msgId == some id

/-- A matched message references an id that another one is the first of the matched to bear. -/
def References (mb : Mailbox) (matched : List ℕ) (a b : ℕ) : Prop :=
  a ∈ matched ∧ ∃ m, mb.messages[a]? = some m ∧
    ∃ reff ∈ msgRefs m, matched.find? (bears mb reff) = some b

/-- One step of the map from ids to positions. -/
def idStep (mb : Mailbox) (m : SortedMap String ℕ) (p : ℕ × ℕ) : Option (SortedMap String ℕ) := do
  let msg ← mb.messages[p.1]?
  match msgId msg with
  | some mid => some (m.orInsert mid p.2)
  | none => some m

/-- A step files the position under the id that its message bears, unless an earlier one does. -/
theorem idStep_spec {i : ℕ} (hi : i < mb.messages.length) (m : SortedMap String ℕ) (k : ℕ) :
    ∃ m', idStep mb m (i, k) = some m' ∧
      ∀ id, m'.get? id = (m.get? id).or (if bears mb id i then some k else none) := by
  have hmsg := List.getElem?_eq_getElem hi
  have hbears : ∀ id, bears mb id i = (msgId mb.messages[i] == some id) := by
    intro id
    unfold bears
    rw [hmsg]
    rfl
  unfold idStep
  rw [hmsg]
  dsimp only [Option.bind_eq_bind, Option.bind_some]
  cases hid : msgId mb.messages[i] with
  | none =>
    refine ⟨m, rfl, fun id => ?_⟩
    rw [hbears, hid]
    simp
  | some mid =>
    refine ⟨m.orInsert mid k, rfl, fun id => ?_⟩
    rw [SortedMap.get?_orInsert, hbears, hid]
    by_cases heq : id = mid
    · simp [heq]
    · simp [heq, Ne.symm heq]

theorem foldlM_idStep (hrange : ∀ i ∈ matched, i < mb.messages.length) (k : ℕ)
    (m : SortedMap String ℕ) : ∃ m', (matched.zipIdx k).foldlM (idStep mb) m = some m' ∧
      ∀ id, m'.get? id = (m.get? id).or ((matched.findIdx? (bears mb id)).map (· + k)) := by
  induction matched generalizing k m with
  | nil => exact ⟨m, rfl, by simp⟩
  | cons i matched ih =>
    obtain ⟨hi, hrest⟩ := List.forall_mem_cons.mp hrange
    obtain ⟨m₁, hstep, hget₁⟩ := idStep_spec hi m k
    obtain ⟨m', hm', hget⟩ := ih hrest (k + 1) m₁
    refine ⟨m', ?_, fun id => ?_⟩
    · rw [List.zipIdx_cons, List.foldlM_cons, hstep]
      exact hm'
    · have hshift : (matched.findIdx? (bears mb id)).map (· + (k + 1)) =
          ((matched.findIdx? (bears mb id)).map (· + 1)).map (· + k) := by
        rw [Option.map_map]
        congr 1
        funext j
        exact (Nat.add_right_comm j 1 k).symm
      rw [hget, hget₁, List.findIdx?_cons, hshift, Option.or_assoc]
      congr 1
      cases bears mb id i with
      | true => simp
      | false => simp

theorem idToPos_spec (hrange : ∀ i ∈ matched, i < mb.messages.length) :
    ∃ ids, idToPos mb matched = some ids ∧
      ∀ id, ids.get? id = matched.findIdx? (bears mb id) := by
  obtain ⟨ids, hids, hget⟩ := foldlM_idStep hrange 0 SortedMap.empty
  refine ⟨ids, hids, fun id => ?_⟩
  rw [hget]
  simp

/-- Linking a position adds the bearers of what it references. -/
theorem linkRefs_spec {ids : SortedMap String ℕ} {n pos : ℕ} (hpos : pos < n)
    (hids : ∀ id other, ids.get? id = some other → other < n) (refs : List String)
    {E : ℕ → ℕ → Prop} {root : ℕ → ℕ} {parent : List ℕ}
    (h : UnionFind.Represents n E root parent) :
    ∃ root' parent', linkRefs ids pos refs parent = some parent' ∧
      UnionFind.Represents n
        (fun x y => E x y ∨ (x = pos ∧ ∃ reff ∈ refs, ids.get? reff = some y)) root' parent' := by
  induction refs generalizing E root parent with
  | nil => exact ⟨root, parent, rfl, h.congr (by simp)⟩
  | cons reff refs ih =>
    cases hget : ids.get? reff with
    | none =>
      obtain ⟨root', parent', hfold, hrep⟩ := ih h
      refine ⟨root', parent', ?_, hrep.congr fun x y => ?_⟩
      · unfold linkRefs
        rw [List.foldlM_cons, hget]
        exact hfold
      · simp [hget]
    | some other =>
      obtain ⟨root₁, parent₁, hlink, h₁⟩ := h.link hpos (hids reff other hget)
      obtain ⟨root', parent', hfold, hrep⟩ := ih h₁
      refine ⟨root', parent', ?_, hrep.congr fun x y => ?_⟩
      · unfold linkRefs
        rw [List.foldlM_cons, hget]
        dsimp only
        rw [hlink]
        exact hfold
      · simp only [List.exists_mem_cons_iff, hget, Option.some.injEq]
        constructor
        · intro hor
          rcases hor with (hE | ⟨hx, hy⟩) | ⟨hx, hrest⟩
          · exact Or.inl hE
          · exact Or.inr ⟨hx, Or.inl hy.symm⟩
          · exact Or.inr ⟨hx, Or.inr hrest⟩
        · intro hor
          rcases hor with hE | ⟨hx, hy | hrest⟩
          · exact Or.inl (Or.inl hE)
          · exact Or.inl (Or.inr ⟨hx, hy.symm⟩)
          · exact Or.inr ⟨hx, hrest⟩

/-- A position is linked to another one by a reference. -/
def LinkedTo (mb : Mailbox) (ids : SortedMap String ℕ) (l : List (ℕ × ℕ)) (x y : ℕ) : Prop :=
  ∃ p ∈ l, p.2 = x ∧ ∃ m, mb.messages[p.1]? = some m ∧
    ∃ reff ∈ msgRefs m, ids.get? reff = some y

theorem linkAll_spec {ids : SortedMap String ℕ} {n : ℕ}
    (hids : ∀ id other, ids.get? id = some other → other < n) (l : List (ℕ × ℕ))
    (hpos : ∀ p ∈ l, p.1 < mb.messages.length ∧ p.2 < n)
    {E : ℕ → ℕ → Prop} {root : ℕ → ℕ} {parent : List ℕ}
    (h : UnionFind.Represents n E root parent) :
    ∃ root' parent', l.foldlM (fun parent p => do
        let msg ← mb.messages[p.1]?
        linkRefs ids p.2 (msgRefs msg) parent) parent = some parent' ∧
      UnionFind.Represents n (fun x y => E x y ∨ LinkedTo mb ids l x y) root' parent' := by
  induction l generalizing E root parent with
  | nil => exact ⟨root, parent, rfl, h.congr (by simp [LinkedTo])⟩
  | cons p l ih =>
    obtain ⟨hmsg, hlt⟩ := hpos p List.mem_cons_self
    have hget := List.getElem?_eq_getElem hmsg
    generalize mb.messages[p.1] = msg at hget
    obtain ⟨root₁, parent₁, hrefs, h₁⟩ := linkRefs_spec hlt hids (msgRefs msg) h
    obtain ⟨root', parent', hfold, hrep⟩ := ih (fun q hq => hpos q (List.mem_cons_of_mem p hq)) h₁
    refine ⟨root', parent', ?_, hrep.congr fun x y => ?_⟩
    · rw [List.foldlM_cons, hget]
      dsimp only [Option.bind_eq_bind, Option.bind_some]
      rw [hrefs]
      exact hfold
    · unfold LinkedTo
      simp only [List.exists_mem_cons_iff, hget, Option.some.injEq, exists_eq_left', or_assoc,
        eq_comm (a := x)]

/-- By induction on the positions: finding a root may shorten paths, and changes no root. -/
theorem foldlM_push_root {n : ℕ} (hlength : matched.length = n) {positions : List ℕ}
    (hpos : ∀ p ∈ positions, p < n) {E : ℕ → ℕ → Prop} {root : ℕ → ℕ} {parent : List ℕ}
    {m : SortedMap ℕ (List ℕ)} {l : List (ℕ × ℕ)} (h : UnionFind.Represents n E root parent)
    (hm : m.Holds l) :
    ∃ parent' m', positions.foldlM (fun (acc : List ℕ × SortedMap ℕ (List ℕ)) pos => do
        let (root, parent) ← UnionFind.find acc.1 pos
        let i ← matched[pos]?
        some (parent, acc.2.push root i)) (parent, m) = some (parent', m') ∧
      m'.Holds (l ++ positions.map fun pos => (root pos, matched.getD pos 0)) := by
  induction positions generalizing parent m l with
  | nil => exact ⟨parent, m, rfl, by simpa using hm⟩
  | cons pos positions ih =>
    have hlt := hpos pos List.mem_cons_self
    have hget : matched[pos]? = some (matched.getD pos 0) := by
      rw [List.getD_eq_getElem?_getD, List.getElem?_eq_getElem (by omega)]
      rfl
    obtain ⟨parent₁, hfind, h₁⟩ := h.find hlt
    obtain ⟨parent', m', hrest, hholds⟩ := ih (fun q hq => hpos q (List.mem_cons_of_mem pos hq))
      h₁ (hm.push (root pos) (matched.getD pos 0))
    refine ⟨parent', m', ?_, ?_⟩
    · rw [List.foldlM_cons, hfind]
      dsimp only [Option.bind_eq_bind, Option.bind_some]
      rw [hget]
      exact hrest
    · rw [List.append_assoc] at hholds
      exact hholds

theorem fillBuckets_spec {n : ℕ} (hlength : matched.length = n) (positions : List ℕ)
    (hpos : ∀ p ∈ positions, p < n) {E : ℕ → ℕ → Prop} {root : ℕ → ℕ} {parent : List ℕ}
    (h : UnionFind.Represents n E root parent) :
    ∃ parent' buckets, fillBuckets matched parent positions = some (parent', buckets) ∧
      buckets.Holds (positions.map fun pos => (root pos, matched.getD pos 0)) :=
  foldlM_push_root hlength hpos h SortedMap.holds_empty

/-- The first bearer of an id, by its position. -/
theorem findIdx?_bears_iff (hdistinct : matched.Nodup) {id : String} {y b : ℕ}
    (hb : matched[y]? = some b) :
    matched.findIdx? (bears mb id) = some y ↔ matched.find? (bears mb id) = some b := by
  rw [List.find?_eq_bind_findIdx?_getElem?]
  constructor
  · intro h
    rw [h]
    exact hb
  · intro h
    obtain ⟨j, hj, hget⟩ := Option.bind_eq_some_iff.mp h
    obtain ⟨hjlt, hjb⟩ := List.getElem?_eq_some_iff.mp hget
    obtain ⟨hylt, hyb⟩ := List.getElem?_eq_some_iff.mp hb
    rw [hj, (hdistinct.getElem_inj_iff).mp (hjb.trans hyb.symm)]

/-- Positions are linked as their messages reference one another. -/
theorem linkedTo_iff (hdistinct : matched.Nodup) {ids : SortedMap String ℕ}
    (hget : ∀ id, ids.get? id = matched.findIdx? (bears mb id)) {x y a b : ℕ}
    (ha : matched[x]? = some a) (hb : matched[y]? = some b) :
    LinkedTo mb ids matched.zipIdx x y ↔ References mb matched a b := by
  constructor
  · intro h
    obtain ⟨⟨a', x'⟩, hp, hx, m, hm, reff, hreff, hid⟩ := h
    have hxx : x' = x := hx
    have ha' := List.mem_zipIdx_iff_getElem?.mp hp
    dsimp only at ha' hm
    rw [hxx, ha] at ha'
    obtain rfl := Option.some.inj ha'
    rw [hget, findIdx?_bears_iff hdistinct hb] at hid
    exact ⟨List.mem_of_getElem? ha, m, hm, reff, hreff, hid⟩
  · intro h
    obtain ⟨-, m, hm, reff, hreff, hfirst⟩ := h
    refine ⟨(a, x), List.mem_zipIdx_iff_getElem?.mpr ha, rfl, m, hm, reff, hreff, ?_⟩
    rw [hget]
    exact (findIdx?_bears_iff hdistinct hb).mpr hfirst

theorem getD_of_getElem? {x a : ℕ} (h : matched[x]? = some a) : matched.getD x 0 = a := by
  rw [List.getD_eq_getElem?_getD, h]
  rfl

theorem getElem?_idxOf {a : ℕ} (h : a ∈ matched) : matched[matched.idxOf a]? = some a := by
  rw [List.getElem?_eq_getElem (List.idxOf_lt_length_of_mem h), List.getElem_idxOf]

theorem idxOf_of_getElem? (hdistinct : matched.Nodup) {x a : ℕ} (h : matched[x]? = some a) :
    matched.idxOf a = x := by
  obtain ⟨hlt, heq⟩ := List.getElem?_eq_some_iff.mp h
  rw [← heq, hdistinct.idxOf_getElem]

/-- Two positions are connected as their messages are: the message at a position carries links over,
and the position of a message carries references back. -/
theorem eqvGen_linkedTo_iff (hdistinct : matched.Nodup) {ids : SortedMap String ℕ}
    (hget : ∀ id, ids.get? id = matched.findIdx? (bears mb id))
    (hbound : ∀ id other, ids.get? id = some other → other < matched.length) {x y a b : ℕ}
    (ha : matched[x]? = some a) (hb : matched[y]? = some b) :
    Relation.EqvGen (LinkedTo mb ids matched.zipIdx) x y ↔
      Relation.EqvGen (References mb matched) a b := by
  constructor
  · intro h
    have hmapped := UnionFind.eqvGen_map (s := References mb matched)
      (f := fun pos => matched.getD pos 0) ?_ h
    · rw [getD_of_getElem? ha, getD_of_getElem? hb] at hmapped
      exact hmapped
    · intro x' y' hlinked
      obtain ⟨p, hp, hx, m, hm, reff, hreff, hid⟩ := hlinked
      have hx' := List.mem_zipIdx_iff_getElem?.mp hp
      rw [hx] at hx'
      have hy' := List.getElem?_eq_getElem (hbound reff y' hid)
      rw [getD_of_getElem? hx', getD_of_getElem? hy']
      exact (linkedTo_iff hdistinct hget hx' hy').mp ⟨p, hp, hx, m, hm, reff, hreff, hid⟩
  · intro h
    rw [← idxOf_of_getElem? hdistinct ha, ← idxOf_of_getElem? hdistinct hb]
    refine UnionFind.eqvGen_map (f := fun c => matched.idxOf c) ?_ h
    intro a' b' href
    obtain ⟨ha', m, hm, reff, hreff, hfirst⟩ := href
    have hb' := List.mem_of_find?_eq_some hfirst
    exact (linkedTo_iff hdistinct hget (getElem?_idxOf ha') (getElem?_idxOf hb')).mpr
      ⟨ha', m, hm, reff, hreff, hfirst⟩

/-- The messages with the roots of their positions, as they are put into the buckets. -/
theorem mem_rooted_iff (hdistinct : matched.Nodup) (root : ℕ → ℕ) {k c : ℕ} (hc : c ∈ matched) :
    (k, c) ∈ (List.range matched.length).map (fun pos => (root pos, matched.getD pos 0)) ↔
      k = root (matched.idxOf c) := by
  rw [List.mem_map]
  constructor
  · intro h
    obtain ⟨pos, hpos, heq⟩ := h
    obtain ⟨hk, hc'⟩ := Prod.mk.inj heq
    have hat := List.getElem?_eq_getElem (List.mem_range.mp hpos)
    rw [getD_of_getElem? hat] at hc'
    rw [hc'] at hat
    rw [← hk, idxOf_of_getElem? hdistinct hat]
  · intro hk
    refine ⟨matched.idxOf c, List.mem_range.mpr (List.idxOf_lt_length_of_mem hc), ?_⟩
    rw [getD_of_getElem? (getElem?_idxOf hc), hk]

theorem map_snd_rooted (root : ℕ → ℕ) :
    ((List.range matched.length).map fun pos => (root pos, matched.getD pos 0)).map Prod.snd =
      matched := by
  rw [List.map_map]
  apply List.ext_getElem
  · simp
  · intro i hi hi'
    simp [hi']

theorem groupByReferences_spec (hdistinct : matched.Nodup)
    (hrange : ∀ i ∈ matched, i < mb.messages.length) :
    ∃ groups, groupByReferences mb matched = some groups ∧ groups.flatten.Perm matched ∧
      (∀ g ∈ groups, g ≠ []) ∧
      ∀ a ∈ matched, ∀ b ∈ matched, (∃ g ∈ groups, a ∈ g ∧ b ∈ g) ↔
        Relation.EqvGen (References mb matched) a b := by
  obtain ⟨ids, hids, hget⟩ := idToPos_spec hrange
  have hbound : ∀ id other, ids.get? id = some other → other < matched.length := by
    intro id other h
    rw [hget] at h
    obtain ⟨hlt, -⟩ := List.findIdx?_eq_some_iff_getElem.mp h
    exact hlt
  have hpos : ∀ p ∈ matched.zipIdx, p.1 < mb.messages.length ∧ p.2 < matched.length := by
    intro p hp
    have hat := List.mem_zipIdx_iff_getElem?.mp hp
    exact ⟨hrange p.1 (List.mem_of_getElem? hat), (List.getElem?_eq_some_iff.mp hat).1⟩
  obtain ⟨root, parent, hlinks, hrep⟩ := linkAll_spec hbound matched.zipIdx hpos
    (UnionFind.represents_range matched.length)
  have hrep := hrep.congr fun x y => iff_of_eq (false_or (LinkedTo mb ids matched.zipIdx x y))
  obtain ⟨parent', buckets, hfill, hholds⟩ := fillBuckets_spec rfl (List.range matched.length)
    (fun p hp => List.mem_range.mp hp) hrep
  refine ⟨buckets.values, ?_, ?_, fun g hg => hholds.ne_nil hg, ?_⟩
  · refine Option.bind_eq_some_iff.mpr ⟨ids, hids, ?_⟩
    refine Option.bind_eq_some_iff.mpr ⟨parent, hlinks, ?_⟩
    exact Option.bind_eq_some_iff.mpr ⟨(parent', buckets), hfill, rfl⟩
  · have hall := hholds.all
    rw [map_snd_rooted] at hall
    exact hall
  · intro a ha b hb
    have hmem := fun {k c : ℕ} (hc : c ∈ matched) => mem_rooted_iff (k := k) hdistinct root hc
    rw [hholds.share_iff, ← eqvGen_linkedTo_iff hdistinct hget hbound (getElem?_idxOf ha)
      (getElem?_idxOf hb), ← hrep.same]
    constructor
    · intro h
      obtain ⟨k, hka, hkb⟩ := h
      exact ((hmem ha).mp hka).symm.trans ((hmem hb).mp hkb)
    · intro h
      exact ⟨_, (hmem ha).mpr rfl, (hmem hb).mpr h⟩

end References

/-- The threads hold each matched message exactly once and none is empty; along references two
messages share a thread when references connect them. -/
theorem buildThreads_partitions (lowercase : String → String) {mb : Mailbox} {matched : List ℕ}
    (hdistinct : matched.Nodup) (hrange : ∀ i ∈ matched, i < mb.messages.length)
    (algo : ThreadAlgorithm) :
    ∃ groups, buildThreads mb lowercase matched algo = some groups ∧
      groups.flatten.Perm matched ∧ (∀ g ∈ groups, g ≠ []) ∧
      (algo = .references → ∀ a ∈ matched, ∀ b ∈ matched,
        (∃ g ∈ groups, a ∈ g ∧ b ∈ g) ↔ Relation.EqvGen (References mb matched) a b) := by
  cases algo with
  | orderedSubject =>
    obtain ⟨groups, hgroups, hperm, hne⟩ := groupBySubject_spec lowercase hrange
    refine ⟨sortThreads mb groups, ?_, (flatten_sortThreads mb groups).trans hperm,
      ne_nil_of_mem_sortThreads mb groups hne, fun h => by cases h⟩
    unfold buildThreads
    rw [hgroups]
    rfl
  | references =>
    obtain ⟨groups, hgroups, hperm, hne, hshare⟩ := groupByReferences_spec hdistinct hrange
    refine ⟨sortThreads mb groups, ?_, (flatten_sortThreads mb groups).trans hperm,
      ne_nil_of_mem_sortThreads mb groups hne, fun _ a ha b hb => ?_⟩
    · unfold buildThreads
      rw [hgroups]
      rfl
    · rw [share_sortThreads]
      exact hshare a ha b hb

/-- A message and a reply to it. -/
def replied : Mailbox :=
  { Mailbox.new "INBOX" (some .inbox) with
    messages := [Message.new 1 [] 0 1 (utf8 "Message-ID: <a@b>\r\n\r\n"),
      Message.new 2 [] 0 1 (utf8 "In-Reply-To: <a@b>\r\n\r\n")] }

/-- The reply is in the thread of the message. -/
theorem buildThreads_partitions_replied :
    ∃ groups, buildThreads replied id [0, 1] .references = some groups ∧
      ∃ g ∈ groups, 1 ∈ g ∧ 0 ∈ g := by
  obtain ⟨groups, hgroups, -, -, hshare⟩ := buildThreads_partitions id
    (by decide : [0, 1].Nodup) (by decide : ∀ i ∈ [0, 1], i < replied.messages.length) .references
  refine ⟨groups, hgroups, (hshare rfl 1 (by decide) 0 (by decide)).mpr (.rel 1 0 ?_)⟩
  have hrefs : "a@b" ∈ msgRefs (Message.new 2 [] 0 1 (utf8 "In-Reply-To: <a@b>\r\n\r\n")) := by
    decide +kernel
  have hfirst : [0, 1].find? (bears replied "a@b") = some 0 := by decide +kernel
  exact ⟨by decide, _, rfl, "a@b", hrefs, hfirst⟩

end Dmtap.Mail.Imap
