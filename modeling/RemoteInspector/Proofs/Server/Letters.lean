import RemoteInspector.Proofs.Dom.Attributes
import RemoteInspector.Proofs.Inspector.Delivery
import RemoteInspector.Proofs.Server.Runs
/-!
From a batch of edits of attributes to the queue of a walker.
-/
namespace RemoteInspector

open Dom (Touch)

/-! ### Letters -/

namespace Site

variable {s : Site} {host : String} {k : ObserverId} {o : Observer}

def Hears (s : Site) (host : String) (k : ObserverId) (o : Observer) : Prop :=
  (k, o) ∈ (s.host host).observers ∧ ∀ o', (k, o') ∈ (s.host host).observers → o' = o

def Covers (s : Site) (host : String) (o : Observer) (n : NodeId) : Prop :=
  (s.dom host).isWithin o.target (s.dom host).reach n = true

theorem mem_interested {change : Dom.Change} : (k, o) ∈ s.interested host change ↔
    (k, o) ∈ (s.host host).observers ∧ s.Covers host o change.target := by
  rw [interested, List.mem_mergeSort, List.mem_filter]
  rfl

theorem Hears.edits (hears : s.Hears host k o) (edits : List Dom.Edit) :
    ({ s.edits host edits with mail := [] } : Site).Hears host k o := by
  have observers : ((s.edits host edits).host host).observers = (s.host host).observers :=
    (Server.stays_edits s host edits).observers host
  rw [Hears, ← observers] at hears
  exact hears

theorem Covers.touches {n : NodeId} (covers : s.Covers host o n) (batch : List Touch) :
    ({ s.edits host (batch.map Touch.edit) with mail := [] } : Site).Covers host o n := by
  have dom : (s.edits host (batch.map Touch.edit)).dom host = (s.dom host).touchAll batch := dom_edits s host _
  rw [Covers, ← Dom.isWithin_touchAll _ batch, ← dom] at covers
  exact covers

/-- What is found while edits are made: each change, with those whom it concerns. -/
theorem foldl_touches (s : Site) (host : String) (batch : List Touch)
    (found : List (ObserverId × Observer × Dom.Change)) :
    let after := (batch.map Touch.edit).foldl (fun p e => ((p.1.edit host e).1, p.2 ++ (p.1.edit host e).2)) (s, found)
    after.1.mail = s.mail ∧ ∀ k o change, (k, o, change) ∈ after.2 ↔ (k, o, change) ∈ found ∨
      ∃ t ∈ batch, change = t.change ∧ (k, o) ∈ (s.host host).observers ∧ s.Covers host o t.node := by
  induction batch generalizing s found with
  | nil => exact ⟨rfl, fun k o change => by simp⟩
  | cons t rest ih =>
    intro after
    let next := (s.edit host t.edit).1
    have dom : next.dom host = (s.dom host).touchAll [t] := by
      simp [next, Site.edit, Site.dom, Site.host_setHost, Dom.touchAll, Dom.editAll]
    have observers : (next.host host).observers = (s.host host).observers := by
      simp [next, Site.edit, Site.host_setHost]
    have covers (o : Observer) (n : NodeId) : next.Covers host o n ↔ s.Covers host o n := by
      rw [Covers, dom, Dom.isWithin_touchAll, Covers]
    have told : (s.edit host t.edit).2 = (next.interested host t.change).map fun p => (p.1, p.2, t.change) := by
      simp [next, Site.edit, Touch.edit, Touch.change, Dom.edit]
    obtain ⟨mail, ih⟩ := ih next (found ++ (s.edit host t.edit).2)
    refine ⟨mail, fun k o change => ?_⟩
    refine (ih k o change).trans ?_
    have first : (k, o, change) ∈ (s.edit host t.edit).2 ↔
        change = t.change ∧ (k, o) ∈ (s.host host).observers ∧ s.Covers host o t.node := by
      rw [told, List.mem_map]
      constructor
      · rintro ⟨⟨k', o'⟩, member, same⟩
        cases same
        obtain ⟨watches, within⟩ := mem_interested.mp member
        exact ⟨rfl, observers ▸ watches, (covers _ _).mp within⟩
      · rintro ⟨rfl, watches, within⟩
        exact ⟨(k, o), mem_interested.mpr ⟨observers.symm ▸ watches, (covers _ _).mpr within⟩, rfl⟩
    rw [List.mem_append, first, observers]
    simp only [covers, List.mem_cons, exists_eq_or_imp, or_assoc]

/-- The letter to an observer about all that was found for it. -/
def letter? (found : List (ObserverId × Observer × Dom.Change)) (k : ObserverId) : Option (ConnectionId × Event) :=
  (found.find? (·.1 == k)).map fun (_, o, _) =>
    (o.connection, .changes o.walker ((found.filter (·.1 == k)).map (·.2.2)))

theorem mail_foldl_post (found : List (ObserverId × Observer × Dom.Change)) (ids : List ObserverId) (s : Site) :
    (ids.foldl (fun s id =>
      match found.find? (·.1 == id) with
      | some (_, o, _) => s.post o.connection (.changes o.walker ((found.filter (·.1 == id)).map (·.2.2)))
      | none => s) s).mail = s.mail ++ ids.filterMap (letter? found) := by
  induction ids generalizing s with
  | nil => simp
  | cons id rest ih =>
    rw [List.foldl_cons, ih, List.filterMap_cons, letter?]
    cases found.find? (·.1 == id) with
    | none => rfl
    | some p => simp [post]

theorem changes_of_letter? {found : List (ObserverId × Observer × Dom.Change)} {letter : ConnectionId × Event}
    (made : letter? found k = some letter) :
    ∃ walker changes, letter.2 = .changes walker changes ∧ ∀ change ∈ changes, ∃ o, (k, o, change) ∈ found := by
  obtain ⟨⟨_, o, _⟩, -, rfl⟩ := Option.map_eq_some_iff.mp made
  refine ⟨_, _, rfl, fun change told => ?_⟩
  obtain ⟨⟨k', o', change'⟩, kept, rfl⟩ := List.mem_map.mp told
  obtain ⟨there, same⟩ := List.mem_filter.mp kept
  obtain rfl : k' = k := by simpa using same
  exact ⟨o', there⟩

theorem letter?_eq_some {found : List (ObserverId × Observer × Dom.Change)} {change : Dom.Change}
    (there : (k, o, change) ∈ found) (sole : ∀ o' change, (k, o', change) ∈ found → o' = o) :
    letter? found k = some (o.connection, .changes o.walker ((found.filter (·.1 == k)).map (·.2.2))) := by
  rw [letter?]
  cases first : found.find? (·.1 == k) with
  | none => exact absurd there fun there => by simpa using List.find?_eq_none.mp first _ there
  | some p =>
    obtain ⟨k', o', change'⟩ := p
    obtain rfl : k' = k := by simpa using List.find?_some first
    obtain rfl := sole o' change' (List.mem_of_find?_eq_some first)
    rfl

/-- The letters about a batch of edits: they tell of nothing else, and an observer above an edited node hears of
all edits of it at once. -/
theorem edits_letters (s : Site) (host : String) (batch : List Touch) :
    ∃ letters, (s.edits host (batch.map Touch.edit)).mail = s.mail ++ letters ∧
      (∀ letter ∈ letters, ∃ walker changes, letter.2 = .changes walker changes ∧
        ∀ change ∈ changes, ∃ t ∈ batch, change = t.change) ∧
      ∀ {k o n}, s.Hears host k o → s.Covers host o n → (∃ t ∈ batch, t.node = n) →
        ∃ changes, (o.connection, .changes o.walker changes) ∈ letters ∧
          ∀ t ∈ batch, t.node = n → t.change ∈ changes := by
  obtain ⟨mail, mem⟩ := foldl_touches s host batch []
  rw [Site.edits]
  generalize (batch.map Touch.edit).foldl _ (s, []) = after at mail mem
  obtain ⟨site, found⟩ := after
  dsimp only at mail mem ⊢
  simp only [List.not_mem_nil, false_or] at mem
  refine ⟨_, (mail_foldl_post found _ site).trans (by rw [mail]), fun letter member => ?_,
    fun {k o n} hears covers edited => ?_⟩
  · obtain ⟨k, -, made⟩ := List.mem_filterMap.mp member
    obtain ⟨walker, changes, same, told⟩ := changes_of_letter? made
    refine ⟨walker, changes, same, fun change listed => ?_⟩
    obtain ⟨o, there⟩ := told change listed
    obtain ⟨t, member, same, -⟩ := (mem k o change).mp there
    exact ⟨t, member, same⟩
  · have told (t : Touch) (member : t ∈ batch) (here : t.node = n) : (k, o, t.change) ∈ found :=
      (mem k o t.change).mpr ⟨t, member, rfl, hears.1, here ▸ covers⟩
    have sole (o' : Observer) (change : Dom.Change) (there : (k, o', change) ∈ found) : o' = o := by
      obtain ⟨_, -, -, watches, -⟩ := (mem k o' change).mp there
      exact hears.2 o' watches
    obtain ⟨t, member, here⟩ := edited
    have listed : k ∈ found.map (·.1) := List.mem_map_of_mem (told t member here)
    refine ⟨(found.filter (·.1 == k)).map (·.2.2), List.mem_filterMap.mpr ⟨k, by simpa using listed, ?_⟩,
      fun t member here => ?_⟩
    · exact letter?_eq_some (told t member here) sole
    · exact List.mem_map.mpr ⟨_, List.mem_filter.mpr ⟨told t member here, by simp⟩, rfl⟩

end Site

/-! ### Letters that are handled -/

namespace Walker

variable {s : Scene} {own : String} {w : WalkerActor}

theorem site_queue (walker : String) (w : WalkerActor) (records : List Mutation) (s : Scene) :
    ((queue walker w records).after s).site = s.site := by
  unfold queue
  split
  · rfl
  · rw [Act.after_bind]
    split
    · exact Scene.site_write _ _
    · rfl

theorem site_onChanges (walker : String) (changes : List Dom.Change) (s : Scene) :
    ((onChanges walker changes).after s).site = s.site := by
  rw [onChanges, Act.after_get_bind]
  cases s.walker? walker with
  | none => rfl
  | some w => exact site_queue walker _ _ _

theorem records_attributes (d : Dom) (limit : Nat) (w : WalkerActor) {changes : List Dom.Change}
    (attributes : ∀ change ∈ changes, ∃ t : Touch, change = t.change) :
    records d limit w changes = (w, changes.filterMap (describe d limit w.known.get?)) := by
  refine Prod.ext ?_ (records_recorded d limit w changes).2
  induction changes with
  | nil => rfl
  | cons change rest ih =>
    obtain ⟨t, rfl⟩ := attributes change List.mem_cons_self
    have first : (record d limit w t.change).1 = w := by
      unfold record
      cases w.known.get? t.change.target <;> rfl
    simp only [records, first]
    exact ih fun other member => attributes other (List.mem_cons_of_mem _ member)

theorem find?_onChanges_attributes (live : s.find? own = some (.walker w)) (walker : String) {changes : List Dom.Change}
    (attributes : ∀ change ∈ changes, ∃ t : Touch, change = t.change) :
    let made := changes.filterMap (describe (s.site.dom w.host) s.site.prefs.valueSummaryLength w.known.get?)
    ((onChanges walker changes).after s).find? own =
      some (.walker { w with queue := w.queue ++ if walker = own then made else [] }) := by
  intro made
  rw [onChanges, Act.after_get_bind]
  by_cases here : walker = own
  · subst here
    rw [Scene.walker?_eq_some.mpr live, if_pos rfl]
    simp only [records_attributes _ _ _ attributes]
    rw [Act.after_bind]
    refine find?_queue_own ?_ w _
    rw [after_updateWalker, live]
    simp
  · rw [if_neg here, List.append_nil]
    cases s.walker? walker with
    | none => exact live
    | some other =>
      dsimp only
      rw [Act.after_bind, find?_queue_other (Ne.symm here), after_updateWalker_ne (Ne.symm here), live]

end Walker

namespace Serve

variable {s : Scene} {own : String} {w : WalkerActor}

def read (s : Scene) (letter : ConnectionId × Event) : Scene :=
  if letter.1 = s.conn.id then onEvent s letter.2 else s

theorem site_read (s : Scene) (k : ConnectionId) (walker : String) (changes : List Dom.Change) :
    (read s (k, .changes walker changes)).site = s.site := by
  unfold read onEvent
  split
  · split
    · exact Walker.site_onChanges walker changes s
    · rfl
  · rfl

theorem speaks_read (s : Scene) (k : ConnectionId) (walker : String) (changes : List Dom.Change) :
    s.Speaks (fun _ => True) (read s (k, .changes walker changes)) := by
  unfold read onEvent
  split
  · split
    · exact Act.Speaks.onChanges trivial changes s trivial
    · exact .of_silent (.refl s)
  · exact .of_silent (.refl s)

/-- Letters have been handled, by which a walker has got some records. -/
structure Reads (own : String) (s : Scene) (w : WalkerActor) (t : Scene) (records : List Mutation) : Prop where
  site : t.site = s.site
  line : t.conn.line = s.conn.line
  stage : t.conn.stage = s.conn.stage
  id : t.conn.id = s.conn.id
  live : t.find? own = some (.walker { w with queue := w.queue ++ records })

def recorded (d : Dom) (w : WalkerActor) (t : Touch) : Option Mutation :=
  (w.known.get? t.node).map fun target => .attributes target t.key.2 t.key.1 (d.attribute? t.node t.key.2)

theorem Reads.trans {t u : Scene} {first later : List Mutation} (here : Reads own s w t first)
    (next : Reads own t { w with queue := w.queue ++ first } u later) : Reads own s w u (first ++ later) where
  site := next.site.trans here.site
  line := next.line.trans here.line
  stage := next.stage.trans here.stage
  id := next.id.trans here.id
  live := by rw [next.live, List.append_assoc]

theorem reads_read (isOpen : s.conn.isOpen = true) (live : s.find? own = some (.walker w)) (k : ConnectionId)
    (walker : String) {changes : List Dom.Change} (attributes : ∀ change ∈ changes, ∃ t : Touch, change = t.change) :
    Reads own s w (read s (k, .changes walker changes)) (if k = s.conn.id ∧ walker = own then changes.filterMap
      (Walker.describe (s.site.dom w.host) s.site.prefs.valueSummaryLength w.known.get?) else []) := by
  have speaks := speaks_read s k walker changes
  refine ⟨site_read s k walker changes, speaks.line, speaks.stage, speaks.id, ?_⟩
  by_cases here : k = s.conn.id
  · simp only [read, here, if_true, onEvent, isOpen, true_and]
    exact Walker.find?_onChanges_attributes live walker attributes
  · simp only [read, here, if_false, false_and, List.append_nil]
    exact live

theorem foldl_read (isOpen : s.conn.isOpen = true) (live : s.find? own = some (.walker w)) {batch : List Touch}
    {letters : List (ConnectionId × Event)} (tell : ∀ letter ∈ letters, ∃ walker changes,
      letter.2 = .changes walker changes ∧ ∀ change ∈ changes, ∃ t ∈ batch, change = t.change) :
    ∃ records, Reads own s w (letters.foldl read s) records ∧
      (∀ r ∈ records, ∃ t ∈ batch, recorded (s.site.dom w.host) w t = some r) ∧
      ∀ changes, (s.conn.id, .changes own changes) ∈ letters → ∀ t : Touch, t.change ∈ changes →
        ∀ r, recorded (s.site.dom w.host) w t = some r → r ∈ records := by
  induction letters generalizing s w with
  | nil => exact ⟨[], ⟨rfl, rfl, rfl, rfl, by rw [List.append_nil]; exact live⟩, nofun, nofun⟩
  | cons letter rest ih =>
    obtain ⟨k, event⟩ := letter
    obtain ⟨walker, changes, same, told⟩ := tell (k, event) List.mem_cons_self
    cases same
    have first := reads_read isOpen live k walker fun change member => (told change member).imp fun t holds => holds.2
    have open' : (read s (k, .changes walker changes)).conn.isOpen = true := by
      rw [Connection.isOpen, first.stage]
      exact isOpen
    obtain ⟨records, reads, only, all⟩ :=
      ih open' first.live fun letter member => tell letter (List.mem_cons_of_mem _ member)
    rw [first.site] at only all
    rw [first.id] at all
    refine ⟨_, first.trans reads, fun r member => ?_, fun changes' member t listed r described => ?_⟩
    · rcases List.mem_append.mp member with made | later
      · split at made
        · obtain ⟨change, member, described⟩ := List.mem_filterMap.mp made
          obtain ⟨t, edited, rfl⟩ := told change member
          exact ⟨t, edited, described⟩
        · cases made
      · exact only r later
    · rcases List.mem_cons.mp member with here | later
      · cases here
        rw [if_pos ⟨rfl, rfl⟩]
        exact List.mem_append_left _ (List.mem_filterMap.mpr ⟨_, listed, described⟩)
      · exact List.mem_append_right _ (all changes' later t listed r described)

end Serve

namespace Server

variable {v : Server} {id : ConnectionId} {c : Connection}

theorem deliver_changes (found : v.connection? id = some c) (k : ConnectionId) (walker : String)
    (changes : List Dom.Change) :
    (v.deliver (k, .changes walker changes)).site = v.site ∧
      (v.deliver (k, .changes walker changes)).connection? id =
        some (Serve.read ⟨v.site, c⟩ (k, .changes walker changes)).conn := by
  have named := id_of_connection? found
  have acts {c' : Connection} (there : v.connection? k = some c') :
      Serve.onEvent ⟨v.site, c'⟩ (.changes walker changes) = Serve.read ⟨v.site, c'⟩ (k, .changes walker changes) := by
    rw [Serve.read, if_pos (id_of_connection? there).symm]
  rw [deliver]
  cases there : v.connection? k with
  | none =>
    have other : k ≠ c.id := by
      rintro rfl
      rw [named, found] at there
      cases there
    rw [onConnection_none there, Serve.read, if_neg other]
    exact ⟨rfl, found⟩
  | some c' =>
    have same := (Serve.speaks_read ⟨v.site, c'⟩ k walker changes).id
    have site := Serve.site_read ⟨v.site, c'⟩ k walker changes
    let handle (s : Scene) : Scene := Serve.onEvent s (.changes walker changes)
    refine ⟨(onConnection_eq there (f := handle) (acts there) same).2.trans site, ?_⟩
    refine (connection?_onConnection there (f := handle) (acts there) same id).trans ?_
    by_cases here : id = k
    · subst here
      rw [found] at there
      cases there
      rw [if_pos rfl]
    · have other : k ≠ c.id := by rw [named]; exact Ne.symm here
      rw [if_neg here, found, Serve.read, if_neg other]

theorem foldl_deliver_changes (found : v.connection? id = some c) {letters : List (ConnectionId × Event)}
    (tell : ∀ letter ∈ letters, ∃ walker changes, letter.2 = .changes walker changes) :
    (letters.foldl deliver v).site = v.site ∧
      (letters.foldl deliver v).connection? id = some (letters.foldl Serve.read ⟨v.site, c⟩).conn := by
  induction letters generalizing v c with
  | nil => exact ⟨rfl, found⟩
  | cons letter rest ih =>
    obtain ⟨k, event⟩ := letter
    obtain ⟨walker, changes, same⟩ := tell (k, event) List.mem_cons_self
    cases same
    obtain ⟨site, next⟩ := deliver_changes found k walker changes
    obtain ⟨site', last⟩ := ih next fun letter member => tell letter (List.mem_cons_of_mem _ member)
    refine ⟨site'.trans site, last.trans ?_⟩
    have scene : (⟨(v.deliver (k, .changes walker changes)).site,
        (Serve.read ⟨v.site, c⟩ (k, .changes walker changes)).conn⟩ : Scene) =
          Serve.read ⟨v.site, c⟩ (k, .changes walker changes) :=
      congrArg (Scene.mk · _) (site.trans (Serve.site_read ⟨v.site, c⟩ k walker changes).symm)
    rw [scene, List.foldl_cons]

/-- A batch of edits, and what a walker that watches above a node has of it by the end. -/
theorem edit_touches (found : v.connection? id = some c) (mail : v.site.mail = []) (isOpen : c.isOpen = true)
    {own : String} {w : WalkerActor} (live : c.registry.find? own = some (.walker w)) (batch : List Touch) {e : NodeId}
    {k : ObserverId} {target : NodeId} (hears : v.site.Hears w.host k ⟨target, id, own⟩)
    (covers : v.site.Covers w.host ⟨target, id, own⟩ e) :
    let edited := v.edit w.host (batch.map Touch.edit)
    let site : Site := { v.site.edits w.host (batch.map Touch.edit) with mail := [] }
    ∃ c' records, edited.site = site ∧ edited.connection? id = some c' ∧
      Serve.Reads own ⟨site, c⟩ w ⟨site, c'⟩ records ∧
      (∀ r ∈ records, ∃ t ∈ batch, Serve.recorded ((v.site.dom w.host).touchAll batch) w t = some r) ∧
      ∀ t ∈ batch, t.node = e → ∀ r, Serve.recorded ((v.site.dom w.host).touchAll batch) w t = some r → r ∈ records := by
  intro edited site
  obtain ⟨letters, posted, tell, reach⟩ := v.site.edits_letters w.host batch
  rw [mail, List.nil_append] at posted
  have settled : edited = letters.foldl deliver { v with site := site } := by
    simp only [edited, edit, settle, setSite, posted, site]
  have dom : site.dom w.host = (v.site.dom w.host).touchAll batch := Site.dom_edits v.site w.host _
  have there : ({ v with site := site } : Server).connection? id = some c := found
  have kind (letter : ConnectionId × Event) (member : letter ∈ letters) :
      ∃ walker changes, letter.2 = .changes walker changes := by
    obtain ⟨walker, changes, same, -⟩ := tell letter member
    exact ⟨walker, changes, same⟩
  obtain ⟨same, last⟩ := foldl_deliver_changes there kind
  obtain ⟨records, reads, only, all⟩ := Serve.foldl_read (s := ⟨site, c⟩) isOpen live tell
  have scene : letters.foldl Serve.read ⟨site, c⟩ = ⟨site, (letters.foldl Serve.read ⟨site, c⟩).conn⟩ :=
    congrArg (Scene.mk · _) reads.site
  dsimp only at only all
  rw [dom] at only all
  refine ⟨_, records, by rw [settled, same], by rw [settled, last], scene ▸ reads, only, fun t member here r described => ?_⟩
  obtain ⟨changes, sent, listed⟩ := reach hears covers ⟨t, member, here⟩
  rw [← id_of_connection? found] at sent
  exact all changes sent t (listed t member here) r described

end Server

end RemoteInspector
