import RemoteInspector.Proofs.Client.Browsing
/-!
A client that looks around a document while it changes, and hears of changes when it fetches records.
-/
namespace RemoteInspector

namespace WalkerFront

/-- What happens while a client looks around: it calls its walker and fetches records, and the host edits its
documents and unloads some. -/
inductive Step
  | call (c : Call)
  | fetch (cleanup : Bool)
  | edit (host : String) (e : Dom.Edit)
  | unload (tab : TabId) (document : NodeId)

/-- The client and its server after it. -/
def Step.after (v : Walking ServerEnd) : Step → Walking ServerEnd
  | .call c => c.after v
  | .fetch cleanup => Trial.after (WalkerCall.getMutations cleanup) v
  | .edit host e => { v with link := v.link.onServer (·.edit host [e]) }
  | .unload tab document => { v with link := v.link.onServer (·.documentUnload tab document) }

def followed (l : Link ServerEnd) (inspector : String) (front : WalkerFront) (steps : List Step) : Walking ServerEnd :=
  steps.foldl Step.after ⟨front, Trial.after (ofInspector inspector) l⟩

/-- A node that has moved is let go with its old parent by the client, which has not fetched the record of the move,
and kept by the walker. Fetching the record does not bring it back. -/
theorem released_before_fetch : ∃ (l : Link ServerEnd) (s : Scene) (d : Dom) (front : WalkerFront) (steps : List Step),
    l.Fresh s "conn0.inspector1" d ∧ Trial.result (ofInspector "conn0.inspector1") l = .ok front ∧
    let v := followed l "conn0.inspector1" front steps
    let w := (Step.fetch true).after v
    (Trial.result (WalkerCall.getMutations true) v).toOption =
        some [.childList "conn0.domnode11" [] [] 1] ∧
      w.known? 5 = some "conn0.domnode7" ∧ w.walker.tree.node? "conn0.domnode7" = none := by
  let d : Dom := { nodes := [(1, { kind := 9, children := [2] }), (2, { kind := 1, parent := some 1, children := [3] }),
    (3, { kind := 1, parent := some 2, children := [4, 6] }), (4, { kind := 1, name := "a", parent := some 3, children := [5] }),
    (5, { kind := 1, name := "c", parent := some 4 }), (6, { kind := 1, name := "b", parent := some 3 })] }
  let l := Opening.link d
  let steps : List Step := [.call (.querySelector "conn0.domnode6" "c"), .call (.querySelector "conn0.domnode6" "b"),
    .edit "host" (.insert 5 6 none), .call (.releaseNode "conn0.domnode8")]
  obtain ⟨front, opened, fits⟩ := Opening.passes (l := l) (p := fun front =>
      let v := followed l "conn0.inspector1" front steps
      let w := (Step.fetch true).after v
      decide ((Trial.result (WalkerCall.getMutations true) v).toOption = some [.childList "conn0.domnode11" [] [] 1]) &&
        decide (w.known? 5 = some "conn0.domnode7") && decide (w.walker.tree.node? "conn0.domnode7" = none))
    (by decide +kernel)
  simp only [Bool.and_eq_true, decide_eq_true_eq] at fits
  exact ⟨l, Opening.scene d, d, front, steps, Opening.fresh (by decide +kernel), opened, fits.1.1, fits.1.2, fits.2⟩

end WalkerFront

end RemoteInspector
