import Comprehend.Proofs.Script.Builtin

/-! # Hosts that respect identities

What a script evaluates to is settled up to identity only if the functions of its host leave it so.
`Host.Respects` is what is asked of them: called alike, from memories that a pairing fits, they come
to results alike, and change no variables of the script. They may make things, call what they are
given, and keep notes. Under the view of the whole memory their answers may depend on these, as those
of a counter do; under the view of the script the notes may be anything, so they may not. -/

namespace Comprehend.Script

variable {view : View}

/-- A function of the host that comes to results alike wherever it is called alike. -/
def RespectsIdentities (view : View) (f : HostCall) : Prop :=
  ∀ {p : Pairing view} {call call' : Caller} {args args' : List Value}, SimulatesCalls p call call' →
    AlikeAll p args args' → Simulates p Alike (f call args) (f call' args')

/-- A host all of whose functions respect identities. -/
class Host.Respects [Host] (view : View) : Prop where
  call (f : HostFunction) : RespectsIdentities view (Host.call f)

/-! ## The host at hand -/

namespace RespectsIdentities

open Simulates

theorem callIncrement : RespectsIdentities view callIncrement := by
  intro p call call' args args' _ hargs
  rcases hargs with _ | ⟨hv, _ | ⟨hw, hargs⟩⟩
  · exact stop
  · simp only [Script.callIncrement, Value.int, Alike.add_eq hv (.number (.int 1))]
    exact lift_refusal_plain (Value.add_plain _ _)
  · exact stop

theorem callPair : RespectsIdentities view callPair := by
  intro p call call' args args' _ hargs
  rcases hargs with _ | ⟨hv, _ | ⟨hw, _ | ⟨_, _⟩⟩⟩
  · exact stop
  · exact stop
  · exact newArray (.cons hv (.cons hw .nil))
  · exact stop

theorem callCount : RespectsIdentities view callCount := by
  intro p call call' args args' _ hargs
  simp only [Script.callCount, hargs.length_eq]
  exact plain (.number _)

theorem callBox : RespectsIdentities view callBox := by
  intro p call call' args args' _ hargs
  rcases hargs with _ | ⟨hv, _ | ⟨hw, hargs⟩⟩
  · exact newTag.bind fun _ _ _ _ ht => pure (.box ht .undefined)
  · exact newTag.bind fun _ _ _ hpq ht => pure (.box ht (hv.mono hpq))
  · exact stop

theorem callLibrary (op : Combinator) : RespectsIdentities view (callLibrary op) := by
  intro p call call' args args' hcall hargs
  have callback {g g' : Value} (hg : Alike p g g') (q r : Pairing view) (w w' : Value) (_ : Nat)
      (hpq : p.Grows q) (hqr : q.Grows r) (hw : Alike r w w') :
      Simulates r Alike (call g [w]) (call' g' [w']) :=
    hcall r _ _ _ _ (hpq.trans hqr) (hg.mono (hpq.trans hqr)) (.cons hw .nil)
  rcases hargs with _ | ⟨hv, _ | ⟨hg, _ | ⟨_, _⟩⟩⟩
  · cases op <;> exact stop
  · cases op <;> exact stop
  · cases op with
    | filter =>
      refine (iterate hv).bind fun q vs vs' hpq hvs => ?_
      refine (Simulates.filterItems (fun r w w' i hqr hw => ?_) 0 hvs).bind fun _ _ _ _ h => newArray h
      exact truthy (callback hg q r w w' i hpq hqr hw)
    | map =>
      refine (iterate hv).bind fun q vs vs' hpq hvs => ?_
      exact (Simulates.mapItems Alike.mono (fun r w w' i => callback hg q r w w' i hpq) 0 hvs).bind
        fun _ _ _ _ h => newArray h
    | flatMap =>
      refine (iterate hv).bind fun q vs vs' hpq hvs => ?_
      refine (Simulates.mapItems (R := AlikeAll) AlikeAll.mono (fun r w w' i hqr hw => ?_) 0 hvs).bind
        fun _ _ _ _ h => newArray ?_
      · exact (callback hg q r w w' i hpq hqr hw).bind fun _ _ _ _ h => iterate h
      · exact List.rel_flatten h
  · cases op <;> exact stop

theorem of_mem_standardFunctions {f : HostFunction} {g : HostCall}
    (h : (f, g) ∈ standardFunctions) : RespectsIdentities view g := by
  simp only [standardFunctions, List.mem_cons, Prod.mk.injEq, List.not_mem_nil, or_false] at h
  rcases h with ⟨-, rfl⟩ | ⟨-, rfl⟩ | ⟨-, rfl⟩ | ⟨-, rfl⟩ | ⟨-, rfl⟩ | ⟨-, rfl⟩ | ⟨-, rfl⟩
  · exact callIncrement
  · exact callPair
  · exact callCount
  · exact callBox
  all_goals exact callLibrary _

end RespectsIdentities

instance Host.respects_standard : @Host.Respects Host.standard view where
  call f := by
    intro p call call' args args' hcall hargs
    simp only [Host.call]
    cases hf : standardFunctions.lookup f with
    | some g =>
      obtain ⟨fs, gs, hmem, -⟩ := List.lookup_eq_some_iff.1 hf
      have hmem : (f, g) ∈ standardFunctions := by simp [hmem]
      exact RespectsIdentities.of_mem_standardFunctions hmem hcall hargs
    | none => exact .stop

/-! ## A host that takes notes -/

/-- Notes some values. -/
def Run.note (vs : List Value) : Run Unit :=
  modify fun m => { m with notes := vs ++ m.notes }

/-- A host that notes what its functions are called with, and does with it what another one does. -/
@[reducible] def Host.noting (host : Host) : Host where
  call f call args := do
    Run.note args
    host.call f call args

theorem Simulates.note {p : Pairing view} {vs vs' : List Value} (h : AlikeAll p vs vs') :
    Simulates p (Equal Unit) (Run.note vs) (Run.note vs') := by
  constructor
  intro m m' x n hm ha
  cases ha
  refine ⟨p, (), _, rfl, .refl p, ?_, rfl, ⟨Nat.le_refl _, Nat.le_refl _, fun _ _ => rfl⟩,
    ⟨Nat.le_refl _, Nat.le_refl _, fun _ _ => rfl⟩⟩
  exact ⟨hm.tag_lt, hm.tag_iff, hm.frame_iff, hm.frame, hm.left_le, hm.right_le,
    fun hview => List.rel_append h (hm.notes hview)⟩

theorem Host.respects_noting (host : Host) [Host.Respects view] :
    @Host.Respects (.noting host) view := by
  refine @Host.Respects.mk (.noting host) view fun f => ?_
  intro p call call' args args' hcall hargs
  refine (Simulates.note hargs).bind fun q _ _ hpq _ => ?_
  exact Host.Respects.call f (hcall.mono hpq) (AlikeAll.mono hpq hargs)

end Comprehend.Script
