import Mathlib.Data.List.Basic
import RemoteInspector.Proofs.Table
import RemoteInspector.Trace.Tracing
/-!
The state of tracing: the active traces are listed in the order of their latest start.
-/
namespace RemoteInspector

namespace Tracing

variable {t u : Tracing} {name : String}

def Same (t u : Tracing) : Prop := u = { t with sequence := u.sequence }

namespace Same

theorem refl (t : Tracing) : t.Same t := rfl

theorem debugger (same : t.Same u) : u.debugger = t.debugger := by rw [same]

theorem active (same : t.Same u) : u.active = t.active := by rw [same]

theorem requests (same : t.Same u) : u.requests = t.requests := by rw [same]

end Same

/-! ### Requests -/

/-- The details that a list of traces asks for, each as often as it is asked for. -/
def asked (traces : Table String (List TraceType)) : List TraceType := traces.flatMap Prod.snd

/-- Traces have names of their own, requests are those of the active traces, and without a session nothing is
traced. -/
structure Sound (t : Tracing) : Prop where
  keys : t.active.keys.Nodup
  requests : t.requests.Perm (asked t.active)
  detached : t.debugger = none → t.active = []

theorem withdraw_perm {requests types rest : List TraceType} (perm : requests.Perm (types ++ rest)) :
    (withdraw requests types).Perm rest := by
  induction types generalizing requests with
  | nil => exact perm
  | cons type types ih =>
    refine ih ?_
    have without := perm.erase type
    rwa [List.cons_append, List.erase_cons_head] at without

theorem asked_erase {traces : Table String (List TraceType)} (nodup : traces.keys.Nodup) (name : String) :
    (asked traces).Perm ((traces.get? name).getD [] ++ asked (traces.erase name)) := by
  induction traces with
  | nil => exact .refl _
  | cons trace rest ih =>
    obtain ⟨key, types⟩ := trace
    obtain ⟨new, nodup⟩ := List.nodup_cons.mp nodup
    by_cases same : key = name
    · subst same
      have others : Table.erase ((key, types) :: rest) key = rest := by
        refine (List.filter_cons_of_neg (by simp)).trans (List.filter_eq_self.mpr fun p member => ?_)
        have listed : p.1 ∈ Table.keys rest := List.mem_map_of_mem member
        simp only [ne_eq, decide_not, Bool.not_eq_eq_eq_not, Bool.not_true, decide_eq_false_iff_not]
        rintro rfl
        exact new listed
      rw [others, Table.get?, if_pos rfl]
      exact .refl _
    · have kept : Table.erase ((key, types) :: rest) name = (key, types) :: Table.erase rest name :=
        List.filter_cons_of_pos (by simpa using same)
      rw [kept, Table.get?, if_neg same]
      calc types ++ asked rest
        _ |>.Perm (types ++ ((Table.get? rest name).getD [] ++ asked (Table.erase rest name))) :=
            (ih nodup).append_left types
        _ |>.Perm ((Table.get? rest name).getD [] ++ (types ++ asked (Table.erase rest name))) :=
            List.perm_append_comm_assoc _ _ _

theorem nodup_start (nodup : t.active.keys.Nodup) (given : Option String) (types : List TraceType) :
    (t.start given types).active.keys.Nodup := by
  refine List.nodup_cons.mpr ⟨fun listed => ?_, Table.nodup_keys_erase nodup _⟩
  obtain ⟨types, found⟩ := Table.mem_keys_iff.mp listed
  rw [Table.get?_erase, if_pos rfl] at found
  cases found

namespace Sound

theorem same (sound : t.Sound) (same : t.Same u) : u.Sound where
  keys := same.active ▸ sound.keys
  requests := by
    rw [same.requests, same.active]
    exact sound.requests
  detached none := by
    rw [same.debugger] at none
    rw [same.active, sound.detached none]

theorem attach (sound : t.Sound) (id : Nat) : { t with debugger := some id }.Sound where
  keys := sound.keys
  requests := sound.requests
  detached none := nomatch none

theorem start (sound : t.Sound) (attached : t.debugger ≠ none) (given : Option String) (types : List TraceType) :
    (t.start given types).Sound where
  keys := nodup_start sound.keys given types
  requests := by
    -- New requests come in before those of the trace that is replaced are taken back.
    refine withdraw_perm ?_
    have apart := sound.requests.trans (asked_erase sound.keys (t.nameFor given))
    exact (apart.append_left types).trans (List.perm_append_comm_assoc _ _ _)
  detached none := absurd none attached

theorem stop (sound : t.Sound) (name : String) : (t.stop name).Sound where
  keys := Table.nodup_keys_erase sound.keys _
  requests := withdraw_perm (sound.requests.trans (asked_erase sound.keys name))
  detached none := by
    change t.active.erase name = []
    rw [sound.detached none]
    rfl

theorem stops (sound : t.Sound) (traces : Table String (List TraceType)) :
    (traces.foldl (fun t trace => t.stop trace.1) t).Sound := by
  induction traces generalizing t with
  | nil => exact sound
  | cons trace rest ih => exact ih (sound.stop trace.1)

end Sound

theorem active_stops (t : Tracing) (traces : Table String (List TraceType)) :
    (traces.foldl (fun t trace => t.stop trace.1) t).active = t.active.filter (·.1 ∉ traces.keys) := by
  induction traces generalizing t with
  | nil => exact (List.filter_eq_self.mpr fun _ _ => by simp [Table.keys]).symm
  | cons trace rest ih =>
    rw [List.foldl_cons, ih]
    change (t.active.filter _).filter _ = _
    rw [List.filter_filter]
    refine List.filter_congr fun p _ => ?_
    rw [Bool.eq_iff_iff, Bool.and_eq_true, decide_eq_true_iff, decide_eq_true_iff, decide_eq_true_iff]
    simp only [Table.keys, List.map_cons, List.mem_cons, not_or, and_comm]

theorem active_detach (t : Tracing) : t.detach.active = [] := by
  refine (active_stops t t.active).trans (List.filter_eq_nil_iff.mpr fun p member => ?_)
  have listed : p.1 ∈ t.active.keys := List.mem_map_of_mem member
  simpa using listed

theorem Sound.detach (sound : t.Sound) : t.detach.Sound where
  keys := by
    rw [active_detach]
    exact .nil
  requests := (sound.stops t.active).requests
  detached _ := active_detach t

theorem Sound.requests_of_inactive (sound : t.Sound) (inactive : t.active = []) : t.requests = [] := by
  have requests := sound.requests
  rw [inactive] at requests
  exact requests.eq_nil

theorem Sound.wants_iff (sound : t.Sound) (type : TraceType) : t.wants type ↔ ∃ trace ∈ t.active, type ∈ trace.2 := by
  rw [wants, List.contains_iff_mem, sound.requests.mem_iff, asked, List.mem_flatMap]

/-! ### The latest trace -/

/-- The names in order of their latest start, of a list that has the latest start first. -/
def order : List String → List String
  | [] => []
  | name :: earlier => name :: (order earlier).filter (· ≠ name)

theorem nodup_order (started : List String) : (order started).Nodup := by
  induction started with
  | nil => exact .nil
  | cons name earlier ih => exact List.nodup_cons.mpr ⟨by simp, ih.filter _⟩

theorem find?_order (started : List String) (p : String → Bool) : (order started).find? p = started.find? p := by
  induction started with
  | nil => rfl
  | cons name earlier ih =>
    rw [order, List.find?_cons, List.find?_cons]
    cases picked : p name with
    | true => rfl
    | false =>
      dsimp only
      rw [List.find?_filter, ← ih]
      congr 1
      funext x
      by_cases same : x = name
      · simp [same, picked]
      · simp [same]

theorem find?_of_sublist {names all : List String} (sublist : names.Sublist all) (nodup : all.Nodup) :
    all.find? (· ∈ names) = names.head? := by
  induction sublist with
  | slnil => rfl
  | @cons names all name sublist ih =>
    obtain ⟨new, nodup⟩ := List.nodup_cons.mp nodup
    rw [List.find?_cons_of_neg (by simpa using fun member => new (sublist.subset member))]
    exact ih nodup
  | cons_cons name sublist => exact List.find?_cons_of_pos (by simp)

/-- The active traces are listed by their latest start; the latest of all is the first of `started`. -/
def Recent (started : List String) (t : Tracing) : Prop := t.active.keys.Sublist (order started)

namespace Recent

variable {started : List String}

theorem start (recent : t.Recent started) (given : Option String) (types : List TraceType) :
    (t.start given types).Recent (t.nameFor given :: started) := by
  refine .cons_cons _ ?_
  change (t.active.erase _).keys.Sublist _
  rw [Table.keys_erase]
  exact recent.filter _

theorem chosen (recent : t.Recent started) : t.chosen? none = started.find? (t.active.contains ·) := by
  have listed : (t.active.contains ·) = fun name => decide (name ∈ t.active.keys) := by
    funext name
    rw [Bool.eq_iff_iff, decide_eq_true_iff, Table.contains_iff_mem]
  have first := find?_of_sublist recent (nodup_order started)
  rw [find?_order] at first
  rw [listed, first, chosen?, Table.keys, List.head?_map]

end Recent

/-! ### Fewer traces -/

/-- Traces have ended at most; starts and frame packets are counted as before. -/
structure Shrinks (t u : Tracing) : Prop where
  active : u.active.Sublist t.active
  total : u.total = t.total
  sequence : u.sequence = t.sequence

namespace Shrinks

theorem refl (t : Tracing) : t.Shrinks t := ⟨.refl _, rfl, rfl⟩

theorem trans {v : Tracing} (first : t.Shrinks u) (next : u.Shrinks v) : t.Shrinks v :=
  ⟨next.active.trans first.active, next.total.trans first.total, next.sequence.trans first.sequence⟩

theorem stop (t : Tracing) (name : String) : t.Shrinks (t.stop name) := ⟨List.filter_sublist, rfl, rfl⟩

theorem stops (t : Tracing) (traces : Table String (List TraceType)) :
    t.Shrinks (traces.foldl (fun t trace => t.stop trace.1) t) := by
  induction traces generalizing t with
  | nil => exact .refl t
  | cons trace rest ih => exact (stop t trace.1).trans (ih _)

theorem detach (t : Tracing) : t.Shrinks t.detach :=
  have stopped := stops t t.active
  ⟨stopped.active, stopped.total, stopped.sequence⟩

theorem recent {started : List String} (fewer : t.Shrinks u) (recent : t.Recent started) : u.Recent started :=
  (fewer.active.map Prod.fst).trans recent

end Shrinks

end Tracing

end RemoteInspector
