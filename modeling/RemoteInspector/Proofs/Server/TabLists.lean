import Mathlib.Data.List.Sort
import RemoteInspector.Proofs.Serve.Listing
import RemoteInspector.Proofs.Server.Resources
/-!
The tabs that a server's clients are told of: those that hosts have announced and not closed.
-/
namespace RemoteInspector

namespace Server

variable {v w : Server} {letters : List (ConnectionId × Event)} {listed : TabId → Option PageInfo} {event : Event}

/-- What a connection will list once it has read its letters. -/
def outlook (id : ConnectionId) (view : TabId → Option PageId) (letters : List (ConnectionId × Event)) :
    TabId → Option PageId :=
  letters.foldl (fun view letter => if letter.1 = id then letter.2.amend view else view) view

theorem outlook_fixed (fixed : ∀ l ∈ letters, l.2.Fixed) (id : ConnectionId) (view : TabId → Option PageId) :
    outlook id view letters = view := by
  induction letters with
  | nil => rfl
  | cons letter rest ih =>
    have first : (if letter.1 = id then letter.2.amend view else view) = view := by
      rw [letter.2.amend_of_fixed (fixed _ List.mem_cons_self), ite_self]
    rw [outlook, List.foldl_cons, first]
    exact ih fun l member => fixed l (List.mem_cons_of_mem _ member)

theorem amend_amend (event : Event) (view : TabId → Option PageId) :
    event.amend (event.amend view) = event.amend view := by
  cases event <;> simp [Event.amend]

theorem outlook_broadcast {id : ConnectionId} {listening : List Connection} (view : TabId → Option PageId)
    (heard : ∃ c ∈ listening, c.id = id) :
    outlook id view (listening.map fun c => (c.id, event)) = event.amend view := by
  have again : ∀ (rest : List Connection), outlook id (event.amend view) (rest.map fun c => (c.id, event)) =
      event.amend view := by
    intro rest
    induction rest with
    | nil => rfl
    | cons c rest ih =>
      rw [List.map_cons, outlook, List.foldl_cons, amend_amend, ite_self]
      exact ih
  induction listening with
  | nil => simp at heard
  | cons c rest ih =>
    rw [List.map_cons, outlook, List.foldl_cons]
    by_cases here : c.id = id
    · rw [if_pos here]
      exact again rest
    · rw [if_neg here]
      obtain ⟨c', member, named⟩ := heard
      rcases List.mem_cons.mp member with rfl | later
      · exact absurd named here
      · exact ih ⟨c', later, named⟩

/-- A connection that has names left lists the tabs of a table, once it has read its letters. -/
structure Informed (tabs : Table TabId PageId) (letters : List (ConnectionId × Event)) (c : Connection) : Prop where
  given : ∀ site, Scene.Given ⟨site, c⟩
  sound : c.registry.next ≤ UInt32.size → c.Sound
  lists : c.isOpen → c.registry.next ≤ UInt32.size →
    ∃ view root, c.registry.Lists view root ∧ outlook c.id view letters = tabs.get?

/-- The pages of the tabs are those that hosts have announced, each with its title and its address. -/
structure Current (listed : TabId → Option PageInfo) (v : Server) : Prop where
  sorted : v.tabs.keys.Pairwise (· < ·)
  tells : ∀ tab, (v.tabs.get? tab).bind v.site.shown? = (listed tab).map fun info => (tab, info)
  drawn : ∀ {tab page}, v.tabs.get? tab = some page → page < v.site.nextPage ∧ (v.site.shown? page).isSome

/-- All connections agree with the server on its tabs, up to the letters on their way. -/
structure Agreed (letters : List (ConnectionId × Event)) (listed : TabId → Option PageInfo) (v : Server) : Prop
    extends v.Current listed where
  numbered : v.Numbered
  informed : ∀ {id c}, v.connection? id = some c → Informed v.tabs letters c
  letters : ∀ l ∈ letters, ∀ {tab page}, l.2 = .tabAdded tab page → (v.site.shown? page).isSome
  mail : ∀ l ∈ v.site.mail, l.2.Fixed

/-! ### One connection acts -/

theorem fixed_of_still {s t : Site} (still : s.Still t) (fixed : ∀ l ∈ s.mail, l.2.Fixed) : ∀ l ∈ t.mail, l.2.Fixed := by
  obtain ⟨more, mail, changes⟩ := still.mail
  rw [mail]
  intro l member
  rcases List.mem_append.mp member with old | new
  · exact fixed l old
  · obtain ⟨walker, changes, same⟩ := changes l new
    rw [same]
    trivial

theorem tabs_onConnection (v : Server) (id : ConnectionId) (f : Scene → Scene) : (v.onConnection id f).tabs = v.tabs := by
  unfold onConnection
  split <;> rfl

theorem Current.congr (current : v.Current listed) (tabs : w.tabs = v.tabs)
    (pages : ∀ page, w.site.shown? page = v.site.shown? page) (nextPage : w.site.nextPage = v.site.nextPage) :
    w.Current listed where
  sorted := tabs ▸ current.sorted
  tells tab := by
    rw [tabs, funext pages]
    exact current.tells tab
  drawn {tab page} found := by
    rw [tabs] at found
    rw [nextPage, pages]
    exact current.drawn found

namespace Informed

variable {tabs : Table TabId PageId} {letters' : List (ConnectionId × Event)} {c : Connection}

theorem relay {tabs' : Table TabId PageId} (informed : Informed tabs letters c)
    (heard : ∀ view, c.isOpen → outlook c.id view letters = tabs.get? → outlook c.id view letters' = tabs'.get?) :
    Informed tabs' letters' c := by
  refine ⟨informed.given, informed.sound, fun isOpen few => ?_⟩
  obtain ⟨view, root, lists, outlook⟩ := informed.lists isOpen few
  exact ⟨view, root, lists, heard view isOpen outlook⟩

theorem step {site : Site} (informed : Informed tabs letters c) {input : Serve.Input}
    (shown : ∀ {tab page}, input = .event (.tabAdded tab page) → (site.page? page).isSome)
    (heard : ∀ view, outlook c.id view letters = outlook c.id (input.amend view) letters') :
    Informed tabs letters' (Serve.step ⟨site, c⟩ input).conn := by
  have later : c.Later (Serve.step ⟨site, c⟩ input).conn := Serve.take_later c ⟨site, input⟩
  refine ⟨fun site' => ?_, fun few => ?_, fun goes_on few => ?_⟩
  · exact (Scene.lasting.step ⟨site, c⟩ input (informed.given site)).2
  · exact (later.sound few (informed.sound (Nat.le_trans later.later few))).1
  · have few' := Nat.le_trans later.later few
    obtain ⟨view, root, lists, outlook⟩ := informed.lists (Serve.open_of_step goes_on) few'
    obtain ⟨root', lists'⟩ := Serve.step_lists shown goes_on few (informed.sound few').valid lists
    refine ⟨_, root', lists', ?_⟩
    rw [later.id, ← heard, outlook]

end Informed

namespace Agreed

section

variable {letters' : List (ConnectionId × Event)} (agreed : v.Agreed letters listed) (id : ConnectionId)

include agreed id

theorem acted {t : Scene} (informed : Informed v.tabs letters' t.conn) (still : v.site.Still t.site)
    (others : ∀ id', id' ≠ id → ∀ view, outlook id' view letters = outlook id' view letters')
    (kept : ∀ l ∈ letters', l ∈ letters) (tabs : w.tabs = v.tabs) (site : w.site = t.site) (numbered : w.Numbered)
    (lookup : ∀ id', w.connection? id' = if id' = id then some t.conn else v.connection? id') :
    w.Agreed letters' listed where
  toCurrent := agreed.toCurrent.congr tabs (by rw [site]; exact still.pages) (by rw [site]; exact still.nextPage)
  numbered := numbered
  informed {id' c} found := by
    rw [lookup] at found
    rw [tabs]
    split at found
    · cases found
      exact informed
    · rename_i other
      refine (agreed.informed found).relay fun view _ awaits => ?_
      rw [← awaits, others]
      rw [id_of_connection? found]
      exact other
  letters l member tab page announced := by
    rw [site, still.pages]
    exact agreed.letters l (kept l member) announced
  mail := by
    rw [site]
    exact fixed_of_still still agreed.mail

theorem turn (input : Serve.Input)
    (shown : ∀ {tab page}, input = .event (.tabAdded tab page) → (v.site.shown? page).isSome)
    (heard : ∀ view, outlook id view letters = outlook id (input.amend view) letters')
    (others : ∀ id', id' ≠ id → ∀ view, outlook id' view letters = outlook id' view letters')
    (kept : ∀ l ∈ letters', l ∈ letters) : (v.onConnection id fun s => Serve.step s input).Agreed letters' listed := by
  cases found : v.connection? id with
  | none =>
    rw [onConnection_none found]
    refine ⟨agreed.toCurrent, agreed.numbered, fun {id' c} found' => ?_, fun l member => agreed.letters l (kept l member),
      agreed.mail⟩
    refine (agreed.informed found').relay fun view _ awaits => ?_
    rw [← awaits, others]
    rintro rfl
    rw [id_of_connection? found', found'] at found
    cases found
  | some c =>
    have named := id_of_connection? found
    have later : c.Later (Serve.step ⟨v.site, c⟩ input).conn := Serve.take_later c ⟨v.site, input⟩
    have informed := agreed.informed found
    have step : v.Step (fun _ => True) (v.onConnection id fun s => Serve.step s input) := .turn id input trivial
    refine agreed.acted id (informed.step (fun news => ?_) (named ▸ heard))
      (Serve.step_still (informed.given v.site) input) others kept (tabs_onConnection ..)
      (onConnection_eq found (f := fun s => Serve.step s input) rfl later.id).2 (step.advances.numbered agreed.numbered)
      (connection?_onConnection found (f := fun s => Serve.step s input) rfl later.id)
    have shown := shown news
    rwa [Site.shown?, Option.isSome_map] at shown

end

theorem turn_fixed (agreed : v.Agreed letters listed) (id : ConnectionId) (input : Serve.Input) (fixed : input.Fixed) :
    (v.onConnection id fun s => Serve.step s input).Agreed letters listed := by
  refine agreed.turn id input ?_ (fun view => by rw [input.amend_of_fixed fixed]) (fun _ _ _ => rfl) fun _ member => member
  rintro tab page rfl
  exact fixed.elim

/-! ### Letters arrive -/

theorem deliver {letter : ConnectionId × Event} (agreed : v.Agreed (letter :: letters) listed) :
    (v.deliver letter).Agreed letters listed := by
  refine agreed.turn letter.1 (.event letter.2) ?_ (fun view => ?_) (fun id other view => ?_)
    fun l member => List.mem_cons_of_mem _ member
  · intro tab page news
    cases letter
    cases news
    exact agreed.letters _ List.mem_cons_self rfl
  · rw [outlook, List.foldl_cons, if_pos rfl]
    rfl
  · rw [outlook, List.foldl_cons, if_neg (Ne.symm other)]
    rfl

theorem settle (agreed : Agreed v.site.mail listed { v with site := { v.site with mail := [] } }) :
    v.settle.Agreed [] listed := by
  unfold Server.settle
  generalize { v with site := { v.site with mail := [] } } = u at agreed ⊢
  generalize v.site.mail = letters at agreed ⊢
  induction letters generalizing u with
  | nil => exact agreed
  | cons letter rest ih => exact ih _ agreed.deliver

theorem settled (agreed : v.Agreed [] listed) : v.settle.Agreed [] listed := by
  refine settle ⟨agreed.toCurrent.congr rfl (fun _ => rfl) rfl, agreed.numbered, fun found => ?_, fun l member => ?_, nofun⟩
  · refine (agreed.informed found).relay fun view _ awaits => ?_
    rw [outlook_fixed agreed.mail]
    exact awaits
  · intro tab page news
    have fixed := agreed.mail l member
    rw [news] at fixed
    exact fixed.elim

end Agreed

theorem mail_broadcast (v : Server) (event : Event) : (v.broadcast event).site =
    { v.site with mail := v.site.mail ++ (v.connections.filter Connection.isOpen).map fun c => (c.id, event) } := by
  unfold broadcast setSite
  dsimp only
  generalize v.connections.filter Connection.isOpen = listening
  generalize v.site = site
  induction listening generalizing site with
  | nil => simp
  | cons c rest ih =>
    rw [List.foldl_cons, ih]
    simp [Site.post]

theorem Agreed.broadcast {listed' : TabId → Option PageInfo} (agreed : v.Agreed [] listed)
    (connections : w.connections = v.connections) (next : w.nextConnection = v.nextConnection)
    (current : w.Current listed') (tabs : w.tabs.get? = event.amend v.tabs.get?) (mail : ∀ l ∈ w.site.mail, l.2.Fixed)
    (shown : ∀ {tab page}, event = .tabAdded tab page → (w.site.shown? page).isSome) :
    (w.broadcast event).settle.Agreed [] listed' := by
  have lookup (id : ConnectionId) : w.connection? id = v.connection? id := by rw [connection?, connections, connection?]
  have posted := mail_broadcast w event
  refine settle ⟨current.congr rfl (fun _ => by rw [posted]; rfl) (by rw [posted]), ?_, fun {id c} found => ?_,
    fun l member => ?_, fun _ member => absurd member List.not_mem_nil⟩
  · exact (Advances.same connections next).numbered agreed.numbered
  · have found : v.connection? id = some c := (lookup id).symm.trans found
    refine (agreed.informed found).relay fun view isOpen awaits => ?_
    have heard : ∃ c' ∈ w.connections.filter Connection.isOpen, c'.id = c.id := by
      refine ⟨c, List.mem_filter.mpr ⟨?_, isOpen⟩, rfl⟩
      rw [connections]
      exact List.mem_of_find?_eq_some found
    have first : outlook c.id view w.site.mail = view := outlook_fixed mail c.id view
    rw [posted]
    change outlook c.id view (_ ++ _) = w.tabs.get?
    rw [outlook, List.foldl_append]
    change outlook c.id (outlook c.id view w.site.mail) _ = _
    rw [first, outlook_broadcast view heard, tabs]
    exact congrArg event.amend awaits
  · intro tab page news
    rw [posted] at member
    rcases List.mem_append.mp member with old | new
    · have fixed := mail l old
      rw [news] at fixed
      exact fixed.elim
    · obtain ⟨c, _, rfl⟩ := List.mem_map.mp new
      rw [posted]
      exact shown news

/-! ### What hosts say of their tabs -/

/-- The tabs after an operation: hosts announce them, rename them and close them. -/
def Op.relist (listed : TabId → Option PageInfo) : Op → TabId → Option PageInfo
  | .newPage tab _ info => Function.update listed tab (some info)
  | .titleChanged tab title => Function.update listed tab ((listed tab).map fun info => { info with title := title })
  | .tabClosed tab => Function.update listed tab none
  | _ => listed

/-- The tabs that hosts have announced and not closed since, as they have described them last. -/
def announced (ops : List Op) : TabId → Option PageInfo := ops.foldl Op.relist fun _ => none

section

variable (current : v.Current listed)

include current

theorem Current.distinct {tab tab' : TabId} {page : PageId} (found : v.tabs.get? tab = some page)
    (found' : v.tabs.get? tab' = some page) : tab = tab' := by
  have tells := current.tells tab
  have tells' := current.tells tab'
  rw [found, Option.bind_some] at tells
  rw [found', Option.bind_some, tells] at tells'
  obtain ⟨shown, here⟩ := Option.isSome_iff_exists.mp (current.drawn found).2
  rw [here] at tells
  obtain ⟨info, _, rfl⟩ := Option.map_eq_some_iff.mp tells.symm
  rw [← tells] at tells'
  obtain ⟨info', _, same⟩ := Option.map_eq_some_iff.mp tells'.symm
  exact (congrArg Prod.fst same).symm

theorem Current.newPage (tab : TabId) (host : String) (info : PageInfo) :
    Current (Function.update listed tab (some info)) { v with
      tabs := v.tabs.insertBy (fun a b => decide (a < b)) tab v.site.nextPage
      site := { v.site with
        nextPage := v.site.nextPage + 1
        pages := v.site.pages.insert v.site.nextPage { tab := tab, host := host, info := info } } } := by
  have pages (page : PageId) : Site.shown? { v.site with
      nextPage := v.site.nextPage + 1
      pages := v.site.pages.insert v.site.nextPage { tab := tab, host := host, info := info } } page =
        if v.site.nextPage = page then some (tab, info) else v.site.shown? page := by
    rw [Site.shown?, Site.page?, Table.get?_insert]
    split <;> rfl
  refine ⟨Table.sorted_insertBy current.sorted tab _, fun tab' => ?_, fun {tab' page} found => ?_⟩
  · dsimp only
    rw [Table.get?_insertBy, funext pages]
    by_cases here : tab = tab'
    · subst here
      simp
    · rw [if_neg here, Function.update_of_ne (Ne.symm here), ← current.tells tab']
      cases found : v.tabs.get? tab' with
      | none => rfl
      | some page => rw [Option.bind_some, Option.bind_some, if_neg (Nat.ne_of_gt (current.drawn found).1)]
  · rw [Table.get?_insertBy] at found
    rw [pages]
    split at found
    · cases found
      exact ⟨Nat.lt_succ_self _, by simp⟩
    · have drawn := current.drawn found
      rw [if_neg (Nat.ne_of_gt drawn.1)]
      exact ⟨Nat.lt_succ_of_lt drawn.1, drawn.2⟩

theorem Current.erase (tab : TabId) :
    Current (Function.update listed tab none) { v with tabs := v.tabs.erase tab } := by
  refine ⟨?_, fun tab' => ?_, fun {tab' page} found => ?_⟩
  · rw [Table.keys_erase]
    exact current.sorted.filter _
  · dsimp only
    rw [Table.get?_erase]
    by_cases here : tab = tab'
    · subst here
      simp
    · rw [if_neg here, Function.update_of_ne (Ne.symm here)]
      exact current.tells tab'
  · rw [Table.get?_erase] at found
    split at found
    · cases found
    · exact current.drawn found

theorem Current.titleChanged (tab : TabId) (title : String) :
    (v.titleChanged tab title).Current
      (Function.update listed tab ((listed tab).map fun info => { info with title := title })) := by
  unfold Server.titleChanged onPage
  cases found : v.tabs.get? tab with
  | none =>
    have tells := current.tells tab
    rw [found, Option.bind_none, eq_comm, Option.map_eq_none_iff] at tells
    rw [tells, Option.map_none, ← tells, Function.update_eq_self]
    exact current
  | some id =>
    dsimp only
    have pages (page : PageId) : (v.site.setPage id fun p => { p with info := { p.info with title := title } }).shown? page =
        (v.site.shown? page).map fun shown => if id = page then (shown.1, { shown.2 with title := title }) else shown := by
      rw [Site.shown?, Site.shown?, Site.page?, Site.page?, Site.setPage, Table.get?_modify, Option.map_map]
      split <;> cases v.site.pages.get? page <;> simp
    refine ⟨current.sorted, fun tab' => ?_, fun {tab' page} found' => ?_⟩
    · have tells := current.tells tab'
      change (v.tabs.get? tab').bind (Site.shown? (v.site.setPage id _)) = _
      rw [funext pages]
      by_cases here : tab' = tab
      · subst here
        rw [found, Option.bind_some] at tells ⊢
        rw [tells, Function.update_self, Option.map_map, Option.map_map]
        exact congrArg (Option.map · _) (funext fun info => if_pos rfl)
      · rw [Function.update_of_ne here, ← tells]
        cases found' : v.tabs.get? tab' with
        | none => rfl
        | some page =>
          have other : id ≠ page := by
            rintro rfl
            exact here (current.distinct found' found)
          simp [other]
    · have drawn := current.drawn found'
      refine ⟨drawn.1, ?_⟩
      change (Site.shown? (v.site.setPage id _) page).isSome
      rw [pages, Option.isSome_map]
      exact drawn.2

end

/-! ### Operations -/

theorem still_edits (s : Site) (host : String) (edits : List Dom.Edit) : s.Still (s.edits host edits) :=
  Site.edits_rel .refl .trans (fun _ _ => .elsewhere rfl rfl rfl) (fun s _ _ _ => .changes s _ _ _) s edits

theorem onPage_eq (v : Server) (tab : TabId) (f : Page → Page) :
    ∃ site, v.onPage tab f = { v with site := site } ∧ site.mail = v.site.mail := by
  unfold onPage
  split
  · exact ⟨_, rfl, rfl⟩
  · exact ⟨_, rfl, rfl⟩

namespace Agreed

theorem setSite (agreed : v.Agreed letters listed) {site : Site} (still : v.site.Still site) :
    Agreed letters listed { v with site := site } where
  toCurrent := agreed.toCurrent.congr rfl still.pages still.nextPage
  numbered := agreed.numbered
  informed := agreed.informed
  letters l member tab page announced := by
    rw [still.pages]
    exact agreed.letters l member announced
  mail := fixed_of_still still agreed.mail

section

variable (agreed : v.Agreed [] listed)

include agreed

theorem broadcast_fixed (fixed : event.Fixed) : (v.broadcast event).settle.Agreed [] listed := by
  refine agreed.broadcast rfl rfl agreed.toCurrent (event.amend_of_fixed fixed _).symm agreed.mail ?_
  rintro tab page rfl
  exact fixed.elim

theorem remember (tab : TabId) (message : CachedMessage) : (v.remember tab message).Agreed [] listed := by
  unfold Server.remember onPage
  split
  · split
    · exact agreed.setSite (.setPage _ _ fun _ => ⟨rfl, rfl⟩)
    · exact agreed
  · exact agreed

theorem hangUp (id : ConnectionId) : (v.hangUp id).Agreed [] listed :=
  (agreed.turn_fixed id .hungUp trivial).settled

theorem shutdown : v.shutdown.Agreed [] listed := by
  have all (connections : List Connection) {u : Server} (agreed : u.Agreed [] listed) :
      (connections.foldl (fun v c => v.hangUp c.id) u).Agreed [] listed := by
    induction connections generalizing u with
    | nil => exact agreed
    | cons c rest ih => exact ih (agreed.hangUp c.id)
  obtain ⟨current, numbered, informed, letters, mail⟩ := all v.connections agreed
  exact ⟨⟨current.sorted, current.tells, current.drawn⟩, numbered, informed, letters, mail⟩

theorem runHooks {f : String → Act Unit} (input : String → Serve.Input)
    (turn : ∀ actor s, ((f actor).run s : Id _).2 = Serve.step s (input actor)) (fixed : ∀ actor, (input actor).Fixed)
    (hooks : List FrameHook) : (hooks.foldl (runHook f) v).Agreed [] listed := by
  induction hooks generalizing v with
  | nil => exact agreed
  | cons hook rest ih =>
    refine ih ?_
    unfold runHook
    rw [funext (turn hook.actor)]
    exact agreed.turn_fixed hook.connection _ (fixed _)

theorem newGlobal (host : String) (global : GlobalId) (parent : Option GlobalId) :
    (v.newGlobal host global parent).1.Agreed [] listed := by
  unfold Server.newGlobal
  generalize v.site.debuggers.filterMap _ = asked
  induction asked generalizing v with
  | nil => exact agreed
  | cons answer rest ih =>
    refine ih ?_
    dsimp only
    split
    · exact agreed.setSite (.elsewhere rfl rfl rfl)
    · exact agreed

theorem join (shared broken : Bool) : (v.join shared broken).Agreed [] listed := by
  obtain ⟨t, started, site, next, lookup⟩ := connection?_join agreed.numbered shared broken
  have numbered := (Onset.join (v := v) shared broken).advances.numbered agreed.numbered
  have tabs : (v.join shared broken).tabs = v.tabs := tabs_onConnection ..
  generalize (if broken then Line.broken else .up) = line at started
  cases shared with
  | true =>
    rw [if_pos rfl] at started
    subst started
    have distinct : v.tabs.keys.Nodup := agreed.sorted.imp Nat.ne_of_lt
    have shown : ∀ p ∈ v.tabs, (v.site.page? p.2).isSome := by
      intro p member
      have drawn := (agreed.drawn ((Table.get?_eq_some_iff distinct).mpr member)).2
      rwa [Site.shown?, Option.isSome_map] at drawn
    refine agreed.acted v.nextConnection ⟨fun site' => ?_, fun few => ?_, fun isOpen few => ?_⟩ (Scene.Moves.still (Serve.start_moves ..))
      (fun _ _ _ => rfl) (fun _ member => member) tabs site numbered lookup
    · exact (Scene.lasting.start v.site v.nextConnection line v.tabs (Serve.rooted_given _ _ _)).2
    · exact Serve.sound_of_begun ⟨v.site, v.nextConnection, line, v.tabs, rfl⟩ few
    · obtain ⟨root, lists⟩ := Serve.start_lists distinct shown few isOpen
      exact ⟨_, root, lists, rfl⟩
  | false =>
    rw [if_neg Bool.false_ne_true] at started
    have informed : Informed v.tabs [] t.conn := by
      rw [started]
      have closed (isOpen : (Connection.isOpen { id := v.nextConnection, line, stage := .ended }) = true) : False := by
        cases isOpen
      exact ⟨fun _ _ member => absurd member List.not_mem_nil, fun _ => ⟨.empty _, fun isOpen => (closed isOpen).elim⟩,
        fun isOpen => (closed isOpen).elim⟩
    have still : v.site.Still t.site := by
      rw [started]
      exact .refl _
    exact agreed.acted v.nextConnection informed still (fun _ _ _ => rfl) (fun _ member => member) tabs site numbered lookup

theorem reported : v.reported.Agreed [] listed := by
  refine ⟨agreed.toCurrent.congr rfl (fun _ => rfl) rfl, Onset.report.advances.numbered agreed.numbered,
    fun {id c} found => ?_, nofun, agreed.mail⟩
  rw [connection?_reported] at found
  obtain ⟨c', found', rfl⟩ := Option.map_eq_some_iff.mp found
  obtain ⟨given, sound, lists⟩ := agreed.informed found'
  have same (isOpen : Connection.isOpen { c' with sent := [], stage := if c'.isOpen then .opened else .told }) :
      c'.isOpen := by
    simpa [Connection.isOpen] using isOpen
  refine ⟨given, fun few => ⟨(sound few).valid, fun isOpen => (sound few).rooted (same isOpen)⟩, fun isOpen few => ?_⟩
  exact lists (same isOpen) few

theorem apply (op : Op) : (v.apply op).Agreed [] (op.relist listed) := by
  cases op with
  | connect shared broken => exact (agreed.join shared broken).settled
  | receive id packet => exact (agreed.turn_fixed id (.packet packet) trivial).settled
  | hangUp id => exact agreed.hangUp id
  | breakLine id => exact agreed.turn_fixed id .lineBroken trivial
  | shutdown => exact agreed.shutdown
  | newPage tab host info =>
    refine agreed.broadcast rfl rfl (agreed.toCurrent.newPage tab host info) ?_ agreed.mail ?_
    · funext tab'
      change (v.tabs.insertBy _ tab _).get? tab' = _
      rw [Table.get?_insertBy, Event.amend, Function.update_apply]
      exact if_congr eq_comm rfl rfl
    · rintro _ _ ⟨⟩
      change (((v.site.pages.insert v.site.nextPage _).get? _).map _).isSome
      rw [Table.get?_insert, if_pos rfl]
      rfl
  | titleChanged tab title =>
    have current := agreed.toCurrent.titleChanged tab title
    change (v.titleChanged tab title).Agreed [] _
    unfold Server.titleChanged at current ⊢
    obtain ⟨site, renamed, mail⟩ := v.onPage_eq tab fun p => { p with info := { p.info with title := title } }
    rw [renamed] at current ⊢
    exact ⟨current, agreed.numbered, agreed.informed, nofun, mail ▸ agreed.mail⟩
  | consoleMessage tab message => exact (agreed.remember tab _).broadcast_fixed trivial
  | pageError tab error => exact (agreed.remember tab _).broadcast_fixed trivial
  | fileActivity tab uri => exact agreed.broadcast_fixed trivial
  | networkEvent tab request event => exact agreed.broadcast_fixed trivial
  | frameLoad tab frame => exact agreed.broadcast_fixed trivial
  | documentUnload tab document => exact agreed.broadcast_fixed trivial
  | tabClosed tab =>
    refine agreed.broadcast rfl rfl (agreed.toCurrent.erase tab) ?_ agreed.mail nofun
    funext tab'
    rw [Table.get?_erase, Event.amend, Function.update_apply]
    exact if_congr eq_comm rfl rfl
  | edit host edits => exact (agreed.setSite (still_edits v.site host edits)).settled
  | addObjects host objects => exact agreed.setSite (.setEngine _ host _)
  | pause host frames => exact agreed.setSite (.setEngine _ host _)
  | enterFrame host frame =>
    exact (agreed.setSite (.setEngine _ host _)).runHooks (fun actor => .entered actor frame)
      (fun _ _ => rfl) (fun _ => trivial) _
  | popFrame host completion =>
    change ((v.popFrame? host completion).getD v).Agreed [] listed
    unfold popFrame?
    split
    · exact agreed
    · exact (agreed.setSite (.setEngine _ host _)).runHooks (fun actor => .left actor completion)
        (fun _ _ => rfl) (fun _ => trivial) _
  | newGlobal host global parent => exact agreed.newGlobal host global parent
  | report => exact agreed.reported

end

end Agreed

theorem Agreed.run (agreed : v.Agreed [] listed) (ops : List Op) :
    (run v ops).Agreed [] (ops.foldl Op.relist listed) := by
  induction ops generalizing v listed with
  | nil => exact agreed
  | cons op rest ih => exact ih (agreed.apply op)

/-- A server that nobody has connected to, without tabs. -/
structure Blank (v : Server) : Prop where
  connections : v.connections = []
  tabs : v.tabs = []
  mail : v.site.mail = []

theorem Blank.agreed (blank : v.Blank) : v.Agreed [] fun _ => none where
  sorted := by
    rw [blank.tabs]
    exact .nil
  tells tab := by
    rw [blank.tabs]
    rfl
  drawn found := by
    rw [blank.tabs] at found
    cases found
  numbered id c found := by
    rw [connection?, blank.connections] at found
    cases found
  informed found := by
    rw [connection?, blank.connections] at found
    cases found
  letters _ member := absurd member List.not_mem_nil
  mail l member := by
    rw [blank.mail] at member
    cases member

/-! ### Answers -/

theorem Current.pages (current : v.Current listed) :
    ∃ pages : Table TabId PageInfo, pages.keys = v.tabs.keys ∧ ∀ tab, pages.get? tab = listed tab := by
  refine ⟨v.tabs.map fun p => (p.1, ((v.site.shown? p.2).map Prod.snd).getD ⟨"", ""⟩), ?_, fun tab => ?_⟩
  · simp [Table.keys]
  · have tells := current.tells tab
    rw [Table.get?_map v.tabs fun page => ((v.site.shown? page).map Prod.snd).getD ⟨"", ""⟩]
    cases found : v.tabs.get? tab with
    | none =>
      rw [found, Option.bind_none, eq_comm, Option.map_eq_none_iff] at tells
      rw [tells, Option.map_none]
    | some page =>
      obtain ⟨shown, here⟩ := Option.isSome_iff_exists.mp (current.drawn found).2
      rw [found, Option.bind_some, here] at tells
      obtain ⟨info, listed, rfl⟩ := Option.map_eq_some_iff.mp tells.symm
      rw [Option.map_some, here, listed]
      rfl

end Server

def Tabs.form (tab : String × TabActor) (info : PageInfo) : Json :=
  .object [("actor", .str tab.1), ("title", .str info.title), ("url", .str info.url),
    ("inspectorActor", .str tab.2.inspector), ("traceActor", .str tab.2.tracer),
    ("consoleActor", .str tab.2.console), ("threadActor", .str tab.2.thread)]

theorem Table.forall₂_of_keys {κ α β : Type} {t : Table κ α} {u : Table κ β} {R : κ × α → κ × β → Prop}
    (keys : t.keys = u.keys) (related : ∀ p ∈ t, ∀ q ∈ u, p.1 = q.1 → R p q) : List.Forall₂ R t u := by
  have same : List.Forall₂ (· = ·) (t.map Prod.fst) (u.map Prod.fst) := by
    rw [List.forall₂_eq_eq_eq]
    exact keys
  obtain ⟨length, zip⟩ := List.forall₂_iff_zip.mp (List.forall₂_map_right_iff.mp (List.forall₂_map_left_iff.mp same))
  refine List.forall₂_iff_zip.mpr ⟨length, fun {p q} member => ?_⟩
  exact related p (List.of_mem_zip member).1 q (List.of_mem_zip member).2 (zip member)

namespace Server

variable {v : Server} {listed : TabId → Option PageInfo}

theorem form?_of_tabOf {s : Scene} {name : String} {t : TabActor} {entry : TabId × PageInfo}
    (tabOf : s.conn.registry.TabOf name t) (shown : s.site.shown? t.page = some entry) :
    Tabs.form? s name = some (Tabs.form (name, t) entry.2) := by
  obtain ⟨page, here, rfl⟩ := Option.map_eq_some_iff.mp shown
  simp [Tabs.form?, Scene.find?, tabOf.find?, Actor.tab?, here, Tabs.form]

theorem forms_of_rows {s : Scene} {rows : Table TabId String} {pages : Table TabId PageInfo}
    (all : List.Forall₂ (fun row entry => ∃ t, s.conn.registry.TabOf row.2 t ∧ s.site.shown? t.page = some entry) rows
      pages) :
    ∃ tabs : List (String × TabActor),
      List.Forall₂ (fun tab entry => s.conn.registry.TabOf tab.1 tab.2 ∧ s.site.shown? tab.2.page = some entry) tabs pages ∧
      rows.values.filterMap (Tabs.form? s) = List.zipWith Tabs.form tabs pages.values := by
  unfold Table.values
  induction all with
  | nil => exact ⟨[], .nil, rfl⟩
  | @cons row entry _ _ first _ ih =>
    obtain ⟨t, tabOf, shown⟩ := first
    obtain ⟨tabs, all, forms⟩ := ih
    refine ⟨(row.2, t) :: tabs, .cons ⟨tabOf, shown⟩ all, ?_⟩
    rw [List.map_cons, List.filterMap_cons_some (form?_of_tabOf tabOf shown), forms]
    rfl

theorem Current.rows (current : v.Current listed) {c : Connection} {root : RootActor}
    (lists : c.registry.Lists v.tabs.get? root) {pages : Table TabId PageInfo} (keys : pages.keys = v.tabs.keys)
    (told : ∀ tab, pages.get? tab = listed tab) :
    List.Forall₂ (fun row entry => ∃ t, c.registry.TabOf row.2 t ∧ v.site.shown? t.page = some entry) root.tabs pages := by
  have distinct : root.tabs.keys.Nodup := lists.sorted.imp Nat.ne_of_lt
  have distinct' : pages.keys.Nodup := keys ▸ current.sorted.imp Nat.ne_of_lt
  have same : root.tabs.keys = v.tabs.keys := by
    refine lists.sorted.eq_of_mem_iff current.sorted fun tab => ?_
    rw [Table.mem_keys_iff, Table.mem_keys_iff]
    constructor
    · rintro ⟨name, found⟩
      obtain ⟨t, _, shown⟩ := lists.rows found
      exact ⟨_, shown⟩
    · rintro ⟨page, shown⟩
      exact lists.all shown
  refine Table.forall₂_of_keys (same.trans keys.symm) fun row member entry member' here => ?_
  obtain ⟨t, tabOf, found⟩ := lists.rows ((Table.get?_eq_some_iff distinct).mpr member)
  refine ⟨t, tabOf, ?_⟩
  have tells := current.tells row.1
  rw [found, Option.bind_some, ← told, here, (Table.get?_eq_some_iff distinct').mpr member'] at tells
  exact tells

theorem receive_listTabs {site : Site} {c : Connection} {root : RootActor} {packet : Fields}
    (rooted : c.registry.find? Tabs.rootName = some (.root root)) (up : c.line = .up)
    (addressed : packet.get? "to" = some (.str Tabs.rootName)) (typed : packet.get? "type" = some (.str "listTabs")) :
    (Serve.receive ⟨site, c⟩ (.obj packet)).conn.sent = c.sent ++
      [Request.withId packet (.object [("from", .str Tabs.rootName), ("selected", .nat 0),
        ("tabs", .arr (root.tabs.values.filterMap (Tabs.form? ⟨site, c⟩)))])] := by
  have live : Scene.find? ⟨site, c⟩ Tabs.rootName = some (.root root) := rooted
  obtain ⟨m, checked, named, keeps⟩ :
      ∃ m, Schema.root.check "listTabs" packet = .ok m ∧ m.name = "listTabs" ∧ m.release = false := ⟨_, rfl, rfl, rfl⟩
  have decided : Request.decide ⟨site, c⟩ Tabs.rootName m.name packet (.root root) =
      .ok (pure [("selected", .nat 0), ("tabs", .arr (root.tabs.values.filterMap (Tabs.form? ⟨site, c⟩)))]) := by
    rw [named]
    rfl
  rw [Request.receive_eq packet up, Request.handle_decided addressed live typed checked keeps decided]
  exact congrArg (·.conn.sent) (Request.write_eq (s := ⟨site, c⟩) _ up)

/-- As long as its names last, an open connection is told of the tabs that hosts have announced and not closed since,
in the order of their numbers, each with its latest title and address and by actors that are there. This is so for
every run of a server that begins without tabs, whenever the connection has come. -/
theorem tab_lists_agree (blank : v.Blank) (ops : List Op) :
    ∃ pages : Table TabId PageInfo, pages.keys.Pairwise (· < ·) ∧ (∀ tab, pages.get? tab = announced ops tab) ∧
      ∀ id c packet, (run v ops).connection? id = some c → c.isOpen → c.line = .up →
        c.registry.next ≤ UInt32.size → Fields.get? packet "to" = some (.str Tabs.rootName) →
        Fields.get? packet "type" = some (.str "listTabs") →
        ∃ tabs : List (String × TabActor),
          List.Forall₂ (fun tab entry => c.registry.TabOf tab.1 tab.2 ∧
            (run v ops).site.shown? tab.2.page = some entry) tabs pages ∧
          (Serve.receive ⟨(run v ops).site, c⟩ (.obj packet)).conn.sent = c.sent ++
            [Request.withId packet (.object [("from", .str Tabs.rootName), ("selected", .nat 0),
              ("tabs", .arr (List.zipWith Tabs.form tabs pages.values))])] := by
  have agreed := blank.agreed.run ops
  obtain ⟨pages, keys, told⟩ := agreed.toCurrent.pages
  refine ⟨pages, keys ▸ agreed.sorted, told, fun id c packet found isOpen up few addressed typed => ?_⟩
  obtain ⟨view, root, lists, outlook⟩ := (agreed.informed found).lists isOpen few
  have lists : c.registry.Lists (run v ops).tabs.get? root := outlook ▸ lists
  obtain ⟨tabs, all, forms⟩ :=
    forms_of_rows (s := ⟨(run v ops).site, c⟩) (agreed.toCurrent.rows lists keys told)
  refine ⟨tabs, all, ?_⟩
  rw [receive_listTabs lists.rooted up addressed typed, forms]

/-- One client has come before the tabs, another after one of them was announced anew and renamed and one was closed. -/
theorem tab_lists_agree_replaced : ∃ (v : Server) (ops : List Op) (pages : Table TabId PageInfo), v.Blank ∧
    pages.keys.Pairwise (· < ·) ∧ pages.get? 3 = some ⟨"settings", "about:config"⟩ ∧ pages.get? 5 = none ∧
    pages.get? 7 = some ⟨"news", "http://b"⟩ ∧
    ∀ id ∈ [0, 1], ∃ (c : Connection) (tabs : List (String × TabActor)), (run v ops).connection? id = some c ∧
      tabs.length = pages.length ∧
      (Serve.receive ⟨(run v ops).site, c⟩ (.obj [("to", .str "root"), ("type", .str "listTabs")])).conn.sent =
        c.sent ++ [.object [("from", .str "root"), ("selected", .nat 0),
          ("tabs", .arr (List.zipWith Tabs.form tabs pages.values))]] := by
  let v : Server := {}
  let ops : List Op :=
    [.connect true false, .newPage 7 "host" ⟨"", "http://a"⟩, .newPage 5 "host" ⟨"", ""⟩,
      .newPage 3 "host" ⟨"settings", "about:config"⟩, .newPage 7 "host" ⟨"", "http://b"⟩, .titleChanged 7 "news",
      .tabClosed 5, .connect true false]
  have blank : v.Blank := ⟨rfl, rfl, rfl⟩
  have there : ∀ id ∈ [0, 1], ((run v ops).connection? id).map
      (fun c => c.isOpen && c.line == .up && decide (c.registry.next ≤ UInt32.size)) = some true := by decide +kernel
  have told : [3, 5, 7].map (announced ops) =
      [some ⟨"settings", "about:config"⟩, none, some ⟨"news", "http://b"⟩] := by decide +kernel
  clear_value ops v
  obtain ⟨pages, sorted, listed, answers⟩ := tab_lists_agree blank ops
  simp only [List.map_cons, List.map_nil, List.cons.injEq, and_true] at told
  refine ⟨v, ops, pages, blank, sorted, (listed 3).trans told.1, (listed 5).trans told.2.1, (listed 7).trans told.2.2,
    fun id member => ?_⟩
  obtain ⟨c, found, ready⟩ := Option.map_eq_some_iff.mp (there id member)
  simp only [Bool.and_eq_true, decide_eq_true_eq, beq_iff_eq] at ready
  obtain ⟨tabs, all, sent⟩ := answers id c [("to", .str "root"), ("type", .str "listTabs")] found ready.1.1
    ready.1.2 ready.2 rfl rfl
  exact ⟨c, tabs, found, all.length_eq, sent⟩

end Server

end RemoteInspector
