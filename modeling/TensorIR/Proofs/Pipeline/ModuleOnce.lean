import TensorIR.Proofs.Pipeline.Scopes
import TensorIR.Proofs.Pipeline.Structure

/-!
# Printing the module once for each pass

`Snapshot.printModuleOnce` prints the module when a pass has gone over it as a whole, or when it has
run on `main`. In the second case the functions behind `main` are printed as the pass has found them
(`Module.midway`), and whether that is the module that the pass leaves depends on them alone
(`once_shows_left_iff`).
-/

namespace TensorIR

/-- The functions of a printed module. -/
def Module.functionsText (functions : List Func) : String :=
  String.join (functions.map fun f => f.render "  ")

theorem Module.text_eq (m : Module) :
    m.text = m.headText ++ functionsText m.functions ++ "\x7d\n" := rfl

theorem Module.functionsText_append (a b : List Func) :
    functionsText (a ++ b) = functionsText a ++ functionsText b := by
  unfold functionsText
  rw [List.map_append, String.join_append]

/-- The module when a pass has run on the first `k` of its functions. -/
def Module.midway (m : Module) (registry : Registry) (pass : Pass) (k : Nat) : Module :=
  { m with functions := (m.functions.take k).map (pass.image registry) ++ m.functions.drop k }

/-- There is one function with the name `main`, between two parts of the module. -/
structure Module.OneMain (m : Module) (pre : List Func) (main : Func) (post : List Func) :
    Prop where
  functions_eq : m.functions = pre ++ main :: post
  name_eq : main.name = "main"
  others : ∀ f ∈ pre ++ post, f.name ≠ "main"

namespace Pipeline

/-- A dump of a module after a pass. -/
def dumpAfter (pass : Pass) (unit : IrUnit) (m : Module) : Dump :=
  ⟨.after, pass.name, unit.text, m.text⟩

/-- The dumps of one pass that goes through a module: of the module that it leaves, or, function by
function, of the module at each function that it leaves with the name `main`. -/
def onceDumps (registry : Registry) (pass : Pass) (m : Module) : List Dump :=
  match pass.scope with
  | .module =>
    let left := m.through registry [pass]
    [dumpAfter pass (.module left) left]
  | .function =>
    (m.functions.mapIdx fun k f =>
      let left := pass.image registry f
      if left.name = "main" then [dumpAfter pass (.function left) (m.midway registry pass (k + 1))]
      else []).flatten

/-- The dumps of passes that go through a module one after the other. -/
def allOnceDumps (registry : Registry) (passes : List Pass) (m : Module) : List Dump :=
  (passes.mapIdx fun i pass =>
    onceDumps registry pass (m.through registry (passes.take i))).flatten

theorem allOnceDumps_cons {registry : Registry} {pass : Pass} {rest : List Pass} {m : Module} :
    allOnceDumps registry (pass :: rest) m =
      onceDumps registry pass m ++ allOnceDumps registry rest (m.through registry [pass]) := by
  unfold allOnceDumps
  rw [List.mapIdx_cons, List.flatten_cons]
  rfl

variable {p : Pipeline} {pass : Pass} {tried : List Dump} {index : Nat} {m : Module}

/-! ## What is written -/

@[simp] theorem written_append (a b : Journal) : (a ++ b).written = a.written ++ b.written := rfl

theorem written_reliable (dumps : List Dump) : Writer.reliable.written tried dumps = dumps := by
  induction dumps generalizing tried with
  | nil => rfl
  | cons d rest ih =>
    rw [Writer.written, ih]
    exact if_pos rfl

/-- Nothing is printed before a pass. -/
theorem written_opening_once (hs : p.options.snapshot = some .printModuleOnce) (unit : IrUnit)
    (functions : List Func) :
    (p.opening tried index pass unit m functions).written = [] := by
  unfold opening Options.snapshotBefore
  rw [hs]
  rfl

theorem written_snapshotAfter_once {o : Options} (hs : o.snapshot = some .printModuleOnce)
    (unit : IrUnit) (changed : Bool) :
    (o.snapshotAfter tried pass unit m changed).written =
      if SnapshotFilter.once pass unit then [dumpAfter pass unit m] else [] := by
  unfold Options.snapshotAfter
  rw [hs]
  exact written_reliable _

theorem Accepts.verified_eq {f : Func} (hscope : pass.scope = .function) (h : Accepts p pass f) :
    p.options.verified Func.verify (pass.run p.registry f) = .ok (pass.changes p.registry f) := by
  obtain ⟨changed, hchanged⟩ := h.succeeds
  rw [Pass.changes_of_result hchanged]
  exact verified_eq_ok_iff.2 ⟨hchanged, h.verifies hscope⟩

theorem Succeeds.runOnModule_eq (hscope : pass.scope = .module) (h : Succeeds p pass m) :
    pass.runOnModule p.registry m =
      ⟨m.through p.registry [pass], .ok (pass.changesModule p.registry m)⟩ := by
  rcases p.runOnModule_cases hscope m with ⟨-, houtcome, -⟩ | ⟨e, -, hstops⟩
  · exact houtcome
  · exact absurd h hstops.not_succeeds

/-- A pass prints at each function that it leaves with the name `main`, when it is through with it
and not yet with those behind. -/
theorem written_runOnFunctions (hs : p.options.snapshot = some .printModuleOnce)
    (hscope : pass.scope = .function) (name : Option String) (done rest : List Func)
    (h : ∀ f ∈ rest, Accepts p pass f) :
    (p.runOnFunctions tried index pass name done rest).journal.written =
      (rest.mapIdx fun k f =>
        let left := pass.image p.registry f
        if left.name = "main" then
          [dumpAfter pass (.function left)
            ⟨name, done ++ ((rest.take (k + 1)).map (pass.image p.registry) ++ rest.drop (k + 1))⟩]
        else []).flatten := by
  induction rest generalizing tried done with
  | nil => rfl
  | cons f rest ih =>
    obtain ⟨hf, hrest⟩ := List.forall_mem_cons.1 h
    rw [runOnFunctions]
    simp only [hf.verified_eq hscope, written_append, written_opening_once hs,
      written_snapshotAfter_once hs, ih _ hrest, List.mapIdx_cons, List.flatten_cons,
      List.nil_append]
    congr 1
    · exact if_congr beq_iff_eq rfl rfl
    · simp only [List.take_succ_cons, List.drop_succ_cons, List.map_cons, List.append_assoc,
        List.cons_append]
      rfl

theorem written_runPass (hs : p.options.snapshot = some .printModuleOnce)
    (h : Succeeds p pass m) :
    (p.runPass tried index pass m).journal.written = onceDumps p.registry pass m := by
  unfold runPass onceDumps
  cases hscope : pass.scope with
  | function =>
    have haccepts := h.accepts (Pass.functionWise_of_function hscope)
    exact written_runOnFunctions hs hscope m.name [] m.functions haccepts
  | module =>
    have hverified : p.options.verified Module.verify
        ⟨m.through p.registry [pass], .ok (pass.changesModule p.registry m)⟩ =
          .ok (pass.changesModule p.registry m) :=
      verified_eq_ok_iff.2 ⟨rfl, h.verifies hscope⟩
    unfold runOnModule
    simp only [h.runOnModule_eq hscope, hverified, written_append, written_opening_once hs,
      written_snapshotAfter_once hs]
    rfl

theorem written_runFrom (hs : p.options.snapshot = some .printModuleOnce) {passes : List Pass}
    (h : AllSucceed p passes m) :
    (p.runFrom tried index passes m).journal.written = allOnceDumps p.registry passes m := by
  induction passes generalizing tried index m with
  | nil => rfl
  | cons pass rest ih =>
    obtain ⟨hfirst, hrest⟩ := allSucceed_cons_iff.1 h
    rw [runFrom]
    rcases p.runPass_cases tried index pass m with
      ⟨-, hresult, hmodule, -⟩ | ⟨reached, failure, hstops, -, -⟩
    · simp only [hresult, hmodule, written_append, written_runPass hs hfirst, ih hrest]
      exact allOnceDumps_cons.symm
    · exact absurd hfirst hstops.not_succeeds

/-! ## What is shown -/

section Marked

variable {α β : Type} {P : α → Prop} [DecidablePred P] {g : Nat → α → β} {l : List α}

theorem flatten_mapIdx_eq_nil_iff :
    (l.mapIdx fun k a => if P a then [g k a] else []).flatten = [] ↔ ∀ a ∈ l, ¬P a := by
  induction l generalizing g with
  | nil => simp
  | cons a rest ih =>
    rw [List.mapIdx_cons, List.flatten_cons, List.append_eq_nil_iff, ih (g := fun k => g (k + 1)),
      List.forall_mem_cons]
    simp

/-- There is one entry exactly if one member satisfies the condition. -/
theorem flatten_mapIdx_eq_singleton_iff {b : β} :
    (l.mapIdx fun k a => if P a then [g k a] else []).flatten = [b] ↔
      ∃ pre a post, l = pre ++ a :: post ∧ P a ∧ (∀ c ∈ pre ++ post, ¬P c) ∧
        b = g pre.length a := by
  induction l generalizing g with
  | nil => simp
  | cons a rest ih =>
    rw [List.mapIdx_cons, List.flatten_cons]
    -- The first member is the one with an entry, or it stands in front of that.
    by_cases ha : P a
    · rw [if_pos ha, List.singleton_append, List.cons.injEq,
        flatten_mapIdx_eq_nil_iff (g := fun k => g (k + 1))]
      constructor
      · rintro ⟨rfl, hrest⟩
        exact ⟨[], a, rest, rfl, ha, hrest, rfl⟩
      · rintro ⟨pre, c, post, hl, hc, hothers, rfl⟩
        cases pre with
        | nil =>
          obtain ⟨rfl, rfl⟩ := List.cons.inj hl
          exact ⟨rfl, hothers⟩
        | cons first pre =>
          obtain ⟨rfl, -⟩ := List.cons.inj hl
          exact absurd ha (hothers a List.mem_cons_self)
    · rw [if_neg ha, List.nil_append, ih (g := fun k => g (k + 1))]
      constructor
      · rintro ⟨pre, c, post, rfl, hc, hothers, rfl⟩
        exact ⟨a :: pre, c, post, rfl, hc, List.forall_mem_cons.2 ⟨ha, hothers⟩, rfl⟩
      · rintro ⟨pre, c, post, hl, hc, hothers, rfl⟩
        cases pre with
        | nil =>
          obtain ⟨rfl, -⟩ := List.cons.inj hl
          exact absurd hc ha
        | cons first pre =>
          obtain ⟨rfl, rfl⟩ := List.cons.inj hl
          exact ⟨pre, c, post, rfl, hc, (List.forall_mem_cons.1 hothers).2, rfl⟩

end Marked

/-- A pass over single functions makes one dump exactly if it leaves one function with the name
`main`. It has run on that function then, and on those in front of it. -/
theorem onceDumps_eq_singleton_iff {registry : Registry} (hscope : pass.scope = .function)
    {d : Dump} :
    onceDumps registry pass m = [d] ↔
      ∃ pre main post, (m.through registry [pass]).OneMain pre main post ∧
        d = dumpAfter pass (.function main) (m.midway registry pass (pre.length + 1)) := by
  unfold onceDumps
  simp only [hscope]
  rw [flatten_mapIdx_eq_singleton_iff (P := fun f => (pass.image registry f).name = "main")
    (g := fun k f =>
      dumpAfter pass (.function (pass.image registry f)) (m.midway registry pass (k + 1)))]
  have hwise := Pass.functionWise_of_function hscope
  have hleft : (m.through registry [pass]).functions = m.functions.map (pass.image registry) := by
    rw [Module.through_singleton, hwise.after_eq]
  constructor
  · rintro ⟨pre, f, post, hm, hf, hothers, rfl⟩
    refine ⟨pre.map (pass.image registry), pass.image registry f, post.map (pass.image registry),
      ⟨?_, hf, ?_⟩, by rw [List.length_map]⟩
    · rw [hleft, hm, List.map_append, List.map_cons]
    · rw [← List.map_append]
      exact List.forall_mem_map.2 hothers
  · rintro ⟨pre', main, post', ⟨hm, hname, hothers⟩, rfl⟩
    rw [hleft] at hm
    obtain ⟨pre, rest, hfunctions, rfl, hrest⟩ := List.map_eq_append_iff.1 hm
    obtain ⟨f, post, rfl, rfl, rfl⟩ := List.map_eq_cons_iff.1 hrest
    rw [← List.map_append] at hothers
    refine ⟨pre, f, post, hfunctions, hname, fun c hc => hothers _ (List.mem_map_of_mem hc), ?_⟩
    rw [List.length_map]

/-- The module in the middle of a pass is printed as the module that the pass leaves exactly if the
functions that the pass has not reached are. -/
theorem text_midway_eq_iff (hwise : pass.FunctionWise) (m : Module) (registry : Registry)
    (k : Nat) :
    (m.midway registry pass k).text = (m.through registry [pass]).text ↔
      Module.functionsText (m.functions.drop k) =
        Module.functionsText ((m.through registry [pass]).functions.drop k) := by
  have hthrough : m.through registry [pass] =
      { m with functions := m.functions.map (pass.image registry) } := hwise.after_eq
  have hhead : (m.midway registry pass k).headText = (m.through registry [pass]).headText := by
    rw [hthrough]
    rfl
  have hmidway : (m.midway registry pass k).functions =
      (m.through registry [pass]).functions.take k ++ m.functions.drop k := by
    have htake : (m.through registry [pass]).functions.take k =
        (m.functions.take k).map (pass.image registry) := by
      rw [hthrough]
      exact List.map_take.symm
    rw [htake]
    rfl
  have hleft : Module.functionsText (m.through registry [pass]).functions =
      Module.functionsText ((m.through registry [pass]).functions.take k) ++
        Module.functionsText ((m.through registry [pass]).functions.drop k) := by
    rw [← Module.functionsText_append, List.take_append_drop]
  rw [Module.text_eq, Module.text_eq, hhead, String.append_left_inj,
    String.append_right_inj, hmidway, Module.functionsText_append, hleft, String.append_right_inj]

/-- The dumps of a pass are one dump, of the module that the pass leaves. -/
def ShowsLeft (registry : Registry) (pass : Pass) (m : Module) : Prop :=
  ∃ d, onceDumps registry pass m = [d] ∧ d.body = (m.through registry [pass]).text

theorem showsLeft_of_module {registry : Registry} (hscope : pass.scope = .module) :
    ShowsLeft registry pass m := by
  unfold ShowsLeft onceDumps
  simp only [hscope]
  exact ⟨_, rfl, rfl⟩

theorem showsLeft_iff_of_function {registry : Registry} (hscope : pass.scope = .function) :
    ShowsLeft registry pass m ↔
      ∃ pre main post, (m.through registry [pass]).OneMain pre main post ∧
        Module.functionsText (m.functions.drop (pre.length + 1)) = Module.functionsText post := by
  have hdrop : ∀ {pre main post}, (m.through registry [pass]).OneMain pre main post →
      (m.through registry [pass]).functions.drop (pre.length + 1) = post := by
    intro pre main post hmain
    rw [hmain.functions_eq, ← List.singleton_append, ← List.append_assoc]
    exact List.drop_left' (by simp)
  have htext := fun k =>
    text_midway_eq_iff (Pass.functionWise_of_function hscope) m registry k
  unfold ShowsLeft
  simp only [onceDumps_eq_singleton_iff hscope]
  constructor
  · rintro ⟨d, ⟨pre, main, post, hmain, rfl⟩, hbody⟩
    refine ⟨pre, main, post, hmain, ?_⟩
    rw [← hdrop hmain]
    exact (htext _).1 hbody
  · rintro ⟨pre, main, post, hmain, hpost⟩
    refine ⟨_, ⟨pre, main, post, hmain, rfl⟩, (htext _).2 ?_⟩
    rw [hdrop hmain, hpost]

/-! ## Passes that keep names -/

/-- The pass leaves functions of the same names, in the same order. -/
def KeepsNames (registry : Registry) (pass : Pass) : Prop :=
  ∀ m, (pass.after registry m).functions.map Func.name = m.functions.map Func.name

theorem keepsNames_of_functionWise (hwise : pass.FunctionWise) {registry : Registry}
    (h : ∀ f, (pass.image registry f).name = f.name) : KeepsNames registry pass := by
  intro m
  rw [hwise.after_eq, List.map_map]
  exact List.map_congr_left fun f _ => h f

/-- Whether one function is called `main`, and where it stands, is a matter of names. -/
theorem exists_oneMain_of_names {m' : Module} {pre post : List Func} {main : Func}
    (hnames : m'.functions.map Func.name = m.functions.map Func.name)
    (h : m.OneMain pre main post) :
    ∃ pre' main' post', m'.OneMain pre' main' post' ∧ pre'.length = pre.length ∧
      post'.length = post.length := by
  rw [h.functions_eq, List.map_append, List.map_cons] at hnames
  obtain ⟨pre', rest, hm', hpre, hrest⟩ := List.map_eq_append_iff.1 hnames
  obtain ⟨main', post', rfl, hmain, hpost⟩ := List.map_eq_cons_iff.1 hrest
  refine ⟨pre', main', post', ⟨hm', hmain.trans h.name_eq, fun f hf => ?_⟩,
    by simpa using congrArg List.length hpre, by simpa using congrArg List.length hpost⟩
  have hmem : f.name ∈ (pre ++ post).map Func.name := by
    rw [List.map_append, ← hpre, ← hpost, ← List.map_append]
    exact List.mem_map_of_mem hf
  obtain ⟨g, hg, hname⟩ := List.mem_map.1 hmem
  rw [← hname]
  exact h.others g hg

/-- Every pass makes one dump. -/
theorem pass_allOnceDumps {registry : Registry} {passes : List Pass}
    (hnames : ∀ pass ∈ passes, KeepsNames registry pass)
    (h : ∃ pre main post, m.OneMain pre main post) :
    (allOnceDumps registry passes m).map Dump.pass = passes.map Pass.name := by
  induction passes generalizing m with
  | nil => rfl
  | cons pass rest ih =>
    obtain ⟨hpass, hrest⟩ := List.forall_mem_cons.1 hnames
    obtain ⟨pre, main, post, hmain⟩ := h
    obtain ⟨pre', main', post', hleft, -⟩ := exists_oneMain_of_names (hpass m) hmain
    have hfirst : (onceDumps registry pass m).map Dump.pass = [pass.name] := by
      cases hscope : pass.scope with
      | module =>
        unfold onceDumps
        rw [hscope]
        rfl
      | function =>
        rw [(onceDumps_eq_singleton_iff hscope).2 ⟨_, _, _, hleft, rfl⟩]
        rfl
    rw [allOnceDumps_cons, List.map_append, hfirst, Module.through_singleton,
      ih hrest ⟨_, _, _, hleft⟩]
    rfl

/-- **When the module that is printed once for a pass is the module that the pass leaves.** A run
that succeeds writes the dumps of each pass, in order of execution. They are one dump, of the module
that the pass leaves, exactly if the pass goes over the module as a whole, or leaves one function
`main` and no other print of the functions behind it. If passes keep names and one function of the
module is called `main`, each pass writes one dump, wherever `main` stands. -/
theorem once_shows_left_iff (p : Pipeline) (hs : p.options.snapshot = some .printModuleOnce)
    (m : Module) {report : Report} (h : (p.run m).result = .ok report) :
    let found (i : Nat) := (p.runUpTo i m).module
    (p.run m).journal.written =
      (p.passes.mapIdx fun i pass => onceDumps p.registry pass (found i)).flatten ∧
    (∀ i pass, p.passes[i]? = some pass →
      ((∃ d, onceDumps p.registry pass (found i) = [d] ∧ d.body = (found (i + 1)).text) ↔
        pass.scope = .module ∨
        ∃ pre main post, (found (i + 1)).OneMain pre main post ∧
          Module.functionsText ((found i).functions.drop (pre.length + 1)) =
            Module.functionsText post)) ∧
    ((∀ pass ∈ p.passes, KeepsNames p.registry pass) →
      (∃ pre main post, m.OneMain pre main post) →
      (p.run m).journal.written.map Dump.pass = p.passNames) := by
  intro found
  have hall : AllSucceed p p.passes m := (completed_of_run h).succeed
  have hfound : ∀ i, found i = m.through p.registry (p.passes.take i) := module_runUpTo hall
  have hwritten : (p.run m).journal.written = allOnceDumps p.registry p.passes m :=
    written_runFrom hs hall
  refine ⟨?_, fun i pass hpass => ?_, fun hnames hmain => ?_⟩
  · rw [hwritten]
    simp only [hfound]
    rfl
  · have hnext : found (i + 1) = (found i).through p.registry [pass] := by
      rw [hfound, hfound, List.take_add_one, hpass, Module.through_append]
      rfl
    rw [hnext]
    cases hscope : pass.scope with
    | module => exact ⟨fun _ => .inl rfl, fun _ => showsLeft_of_module hscope⟩
    | function =>
      rw [or_iff_right nofun]
      exact showsLeft_iff_of_function hscope
  · rw [hwritten]
    exact pass_allOnceDumps hnames hmain

/-- A helper in front of `main`, both with a type that inference has to find, behind a pass that
goes over the module in a way of its own. -/
theorem once_shows_left_helper :
    let ty : Ty := .tensor ⟨.f32, [.known 3]⟩
    let declared : Ty := .tensor ⟨.f32, [.dynamic]⟩
    let build (name : String) : Func := (Func.empty name).after
      [.addArgument ty, .pushOp { name := ⟨"relay.exp"⟩, operands := [0] } [declared],
        .pushOp { name := .terminator, operands := [1] } [], .setSignature ⟨[ty], [declared]⟩]
    let baptize : Pass :=
      { name := "baptize", stage := .inference, scope := .module, run := fun _ f => ⟨f, .ok false⟩
        moduleRun := some fun _ m => ⟨{ m with name := some "net" }, .ok true⟩ }
    let infer := ShapeInference.pass Relay.dialectName
    let p : Pipeline :=
      { shapesOnly with
        options := { snapshot := some .printModuleOnce }, passes := [baptize, infer] }
    let m : Module := ⟨none, [build "helper", build "main"]⟩
    (p.options.snapshot = some .printModuleOnce ∧ (p.run m).result = .ok ⟨[true, true]⟩) ∧
      (p.passes[1]? = some infer ∧ ∃ d, onceDumps p.registry infer (p.runUpTo 1 m).module = [d] ∧
        d.body = (p.runUpTo 2 m).module.text) ∧
      (∀ pass ∈ p.passes, KeepsNames p.registry pass) ∧
      (∃ pre main post, m.OneMain pre main post) ∧
      (p.run m).journal.written.map Dump.pass = p.passNames := by
  intro ty declared build baptize infer p m
  have hrun : (p.run m).result = .ok ⟨[true, true]⟩ := by decide +kernel
  have hbaptize : KeepsNames p.registry baptize := fun _ => rfl
  have hwise : infer.FunctionWise := rfl
  have hinfer : KeepsNames p.registry infer := keepsNames_of_functionWise hwise fun f =>
    (ShapeInference.retyped_run p.registry Relay.dialectName f).name
  have hnames : ∀ pass ∈ p.passes, KeepsNames p.registry pass := by
    simp only [p, List.forall_mem_cons]
    exact ⟨hbaptize, hinfer, nofun⟩
  have hmain : m.OneMain [build "helper"] (build "main") [] := ⟨rfl, rfl, by decide⟩
  have hkept : (p.runUpTo 2 m).module.functions.map Func.name = m.functions.map Func.name := by
    rw [module_runUpTo (completed_of_run hrun).succeed 2]
    exact (hinfer _).trans (hbaptize m)
  obtain ⟨pre, main, post, hleft, hpre, hpost⟩ := exists_oneMain_of_names hkept hmain
  obtain rfl := List.eq_nil_of_length_eq_zero hpost
  obtain ⟨-, hshows, hpasses⟩ := once_shows_left_iff p rfl m hrun
  refine ⟨⟨rfl, hrun⟩, ⟨rfl, (hshows 1 infer rfl).2 (.inr ⟨_, _, _, hleft, ?_⟩)⟩, hnames,
    ⟨_, _, _, hmain⟩, hpasses hnames ⟨_, _, _, hmain⟩⟩
  have hfound := module_runUpTo (completed_of_run hrun).succeed 1
  simp only [hfound, hpre]
  rfl

/-- With the helper behind `main`, its type is printed as if it had not been found. -/
theorem once_shows_unfinished :
    let ty : Ty := .tensor ⟨.f32, [.known 3]⟩
    let declared : Ty := .tensor ⟨.f32, [.dynamic]⟩
    let build (name : String) : Func := (Func.empty name).after
      [.addArgument ty, .pushOp { name := ⟨"relay.exp"⟩, operands := [0] } [declared],
        .pushOp { name := .terminator, operands := [1] } [], .setSignature ⟨[ty], [declared]⟩]
    let p : Pipeline := { shapesOnly with options := { snapshot := some .printModuleOnce } }
    let m : Module := ⟨some "net", [build "main", build "helper"]⟩
    m.OneMain [] (build "main") [build "helper"] ∧ (p.run m).result = .ok ⟨[true]⟩ ∧
      ¬ ∃ d, (p.run m).journal.written = [d] ∧ d.body = (p.run m).module.text := by
  intro ty declared build p m
  obtain ⟨hrun, hbodies⟩ : (p.run m).result = .ok ⟨[true]⟩ ∧
      (p.run m).journal.written.map Dump.body ≠ [(p.run m).module.text] := by decide +kernel
  refine ⟨⟨rfl, rfl, by decide⟩, hrun, ?_⟩
  rintro ⟨d, hd, hbody⟩
  exact hbodies (by rw [hd, List.map_singleton, hbody])

end Pipeline

end TensorIR
