import TensorIR.Proofs.Func.Renumbering

/-!
# Printed names

An argument prints by its position and a result by its place among all results, so the printed text
of a function depends on the order of its parts and not on their numbers (`Aligned.text_eq`).
-/

namespace TensorIR.Func

variable {f g : Func} {ops : OpId → OpId} {values : ValueId → ValueId} {v : ValueId}

/-- In a list without repetitions the last place of a value is its only one. -/
theorem lastIndex?_eq_some {l : List ValueId} {k : Nat} (hnodup : l.Nodup)
    (hk : l[k]? = some v) : lastIndex? v l = some k := by
  obtain ⟨hlt, rfl⟩ := List.getElem?_eq_some_iff.1 hk
  have hidx : l.reverse.idxOf? l[k] = some (l.length - 1 - k) := by
    refine List.idxOf?_eq_some_iff.2 ⟨by rw [List.length_reverse]; omega, ?_, ?_⟩
    · rw [List.getElem_reverse, hnodup.getElem_inj_iff]
      omega
    · intro j hj heq
      rw [List.getElem_reverse, hnodup.getElem_inj_iff] at heq
      omega
  rw [lastIndex?, hidx, Option.map_some]
  congr 1
  omega

theorem lastIndex?_eq_none {l : List ValueId} (h : v ∉ l) : lastIndex? v l = none := by
  have hidx : l.reverse.idxOf? v = none := List.idxOf?_eq_none_iff.2 (by simpa using h)
  rw [lastIndex?, hidx, Option.map_none]

namespace ResultsRecorded

theorem valueName_result (hf : f.ResultsRecorded) {k : Nat} (hk : f.results[k]? = some v) :
    f.valueName v = "%" ++ toString (resultNumber k) := by
  unfold valueName
  rw [lastIndex?_eq_some hf.nodup_results hk]

theorem valueName_argument (hf : f.ResultsRecorded) {n : Nat} (hn : f.arguments[n]? = some v)
    (ho : f.origin? v = some (.argument n)) : f.valueName v = "%arg" ++ toString n := by
  have hmem : v ∈ f.arguments := List.mem_of_getElem? hn
  have hres : v ∉ f.results := by
    intro hres
    obtain ⟨node, hnode, hv⟩ := mem_results_iff_exists.1 hres
    obtain ⟨k, hk⟩ := (hf.mem_results_iff (wiring_mem hnode)).1 hv
    rw [ho] at hk
    cases hk
  obtain ⟨⟨ty, _⟩, hvalue, rfl⟩ := Option.map_eq_some_iff.1 ho
  unfold valueName
  rw [lastIndex?_eq_none hres]
  simp [hmem, hvalue]

end ResultsRecorded

namespace Invariant

theorem valueName_result (hf : f.Invariant) {k : Nat} (hk : f.results[k]? = some v) :
    f.valueName v = "%" ++ toString (resultNumber k) :=
  hf.resultsRecorded.valueName_result hk

theorem valueName_argument (hf : f.Invariant) {n : Nat} (hn : f.arguments[n]? = some v) :
    f.valueName v = "%arg" ++ toString n :=
  hf.resultsRecorded.valueName_argument hn ((hf.argument_iff v n).2 hn)

end Invariant

namespace Aligned

theorem valueName_eq (h : Aligned f g ops values) (hf : f.Invariant) (hg : g.Invariant)
    (hv : v ∈ f.defined) : g.valueName (values v) = f.valueName v := by
  rcases List.mem_append.1 hv with harg | hres
  · obtain ⟨n, hn⟩ := List.mem_iff_getElem?.1 harg
    have hn' : g.arguments[n]? = some (values v) := by
      rw [h.arguments, List.getElem?_map, hn, Option.map_some]
    rw [hf.valueName_argument hn, hg.valueName_argument hn']
  · obtain ⟨k, hk⟩ := List.mem_iff_getElem?.1 hres
    have hk' : g.results[k]? = some (values v) := by
      rw [h.results_eq, List.getElem?_map, hk, Option.map_some]
    rw [hf.valueName_result hk, hg.valueName_result hk']

theorem tyText_eq (h : Aligned f g ops values) (hv : v ∈ f.defined) :
    g.tyText (values v) = f.tyText v := by
  unfold tyText
  rw [h.tys v hv]

theorem nameList_eq (h : Aligned f g ops values) (hf : f.Invariant) (hg : g.Invariant)
    {l : List ValueId} (hl : ∀ v ∈ l, v ∈ f.defined) :
    g.nameList (l.map values) = f.nameList l := by
  unfold nameList
  rw [List.map_map]
  congr 1
  exact List.map_congr_left fun v hv => h.valueName_eq hf hg (hl v hv)

theorem tyList_eq (h : Aligned f g ops values) {l : List ValueId}
    (hl : ∀ v ∈ l, v ∈ f.defined) : g.tyList (l.map values) = f.tyList l := by
  unfold tyList
  rw [List.map_map]
  congr 1
  exact List.map_congr_left fun v hv => h.tyText_eq (hl v hv)

theorem resultTyList_eq (h : Aligned f g ops values) {l : List ValueId}
    (hl : ∀ v ∈ l, v ∈ f.defined) : g.resultTyList (l.map values) = f.resultTyList l := by
  cases l with
  | nil => rfl
  | cons v l =>
    cases l with
    | nil => exact h.tyText_eq (hl v List.mem_cons_self)
    | cons u l =>
      change "(" ++ g.tyList ((v :: u :: l).map values) ++ ")" = _
      rw [h.tyList_eq hl]
      rfl

theorem opText_eq (h : Aligned f g ops values) (hf : f.Invariant) (hg : g.Invariant)
    {node : Node} (hnode : node ∈ f.body.nodes) :
    g.opText (node.op.rename values) = f.opText node.op := by
  have hoperands : ∀ v ∈ node.op.operands, v ∈ f.defined :=
    fun v hv => hf.operand_mem_defined hnode hv
  have hresults : ∀ v ∈ node.op.results, v ∈ f.defined :=
    fun v hv => mem_defined_of_result hnode hv
  unfold opText Operation.rename
  simp only [h.nameList_eq hf hg hoperands, h.nameList_eq hf hg hresults, h.tyList_eq hoperands,
    h.resultTyList_eq hresults, List.isEmpty_map]

theorem headText_eq (h : Aligned f g ops values) (hf : f.Invariant) (hg : g.Invariant) :
    g.headText = f.headText := by
  have harguments : (g.arguments.map fun v => g.valueName v ++ ": " ++ g.tyText v) =
      f.arguments.map fun v => f.valueName v ++ ": " ++ f.tyText v := by
    rw [h.arguments, List.map_map]
    apply List.map_congr_left
    intro v hv
    have hdef : v ∈ f.defined := mem_defined_of_argument hv
    simp only [Function.comp_apply, h.valueName_eq hf hg hdef, h.tyText_eq hdef]
  unfold headText
  simp only [harguments, h.name, h.signature]

/-- The same program in the same order prints to the same text. -/
theorem text_eq (h : Aligned f g ops values) (hf : f.Invariant) (hg : g.Invariant) :
    g.text = f.text := by
  have hops : (g.body.ops.map fun op => "  " ++ g.opText op) =
      f.body.ops.map fun op => "  " ++ f.opText op := by
    unfold Body.ops
    rw [h.nodes, List.map_map, List.map_map, List.map_map]
    apply List.map_congr_left
    intro node hnode
    simp only [Function.comp_apply, h.opText_eq hf hg hnode]
  unfold text render lines
  rw [hops, h.headText_eq hf hg]

end Aligned

end TensorIR.Func
