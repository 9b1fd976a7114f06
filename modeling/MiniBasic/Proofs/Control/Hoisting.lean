import Mathlib.Data.List.Nodup
import MiniBasic.Proofs.Control.Change

/-!
# The place of declarations

The procedures that a program declares at its top level are defined before its first statement is
executed, and once more when the run comes to their declarations. The second time changes nothing,
as long as nothing else that runs declares another procedure under one of their names: then the
declarations may stand anywhere among the other statements of the program.
-/

namespace MiniBasic

/-- The procedures that a program declares at its top level. -/
def hoisted (program : Program) : List Procedure :=
  program.filterMap Procedure.ofStmt?

/-- The statements of a program that are not declarations. -/
def ordinary (program : Program) : Program :=
  program.filter fun stmt ↦ (Procedure.ofStmt? stmt).isNone

/-- Two programs with the same statements in the same order and the same set of declarations. -/
structure Rearranged (p q : Program) : Prop where
  statements : ordinary p = ordinary q
  procedures (d : Procedure) : d ∈ hoisted p ↔ d ∈ hoisted q

/-- No two procedures that the program declares, at whatever depth, have the same name. -/
def DistinctNames (program : Program) : Prop :=
  ((declaredAll program).map fun d ↦ Text.foldCase d.name).Nodup

instance (program : Program) : Decidable (DistinctNames program) :=
  inferInstanceAs (Decidable (List.Nodup _))

/-- The procedure is the one in `procedures` of its name, if there is one. -/
def Agrees (procedures : List Procedure) (d : Procedure) : Prop :=
  ∀ e ∈ procedures, Text.foldCase d.name = Text.foldCase e.name → d = e

/-- No procedure in the table, unless the program replaces it, declares another procedure under the
name of one that the program declares at its top level. -/
def State.Undisturbed (s : State) (program : Program) : Prop :=
  ∀ (key : String) (d : Procedure), s.env.procedures[key]? = some d →
    (∀ e ∈ hoisted program, Text.foldCase e.name ≠ key) → Declares (Agrees (hoisted program)) d.body

/-! ## Declarations in a program -/

theorem Procedure.ofStmt?_eq_some {stmt : Stmt} {d : Procedure} (h : ofStmt? stmt = some d) :
    stmt = .procedure d.kind d.name d.params d.body := by
  cases stmt with
  | procedure kind name params body =>
    cases h
    rfl
  | _ => cases h

theorem mem_hoisted {program : Program} {d : Procedure} :
    d ∈ hoisted program ↔ .procedure d.kind d.name d.params d.body ∈ program := by
  unfold hoisted
  rw [List.mem_filterMap]
  constructor
  · rintro ⟨stmt, mem, declared⟩
    rwa [← Procedure.ofStmt?_eq_some declared]
  · intro mem
    exact ⟨_, mem, rfl⟩

theorem mem_declaredAll_of_mem_hoisted {program : Program} {d : Procedure}
    (h : d ∈ hoisted program) :
    d ∈ declaredAll program :=
  mem_declaredAll.mpr ⟨_, mem_hoisted.mp h, List.mem_cons_self⟩

namespace Rearranged

variable {p q : Program}

theorem symm (h : Rearranged p q) : Rearranged q p where
  statements := h.statements.symm
  procedures d := (h.procedures d).symm

theorem mem (h : Rearranged p q) {stmt : Stmt} (hstmt : stmt ∈ p) : stmt ∈ q := by
  cases declared : Procedure.ofStmt? stmt with
  | none =>
    have kept : stmt ∈ ordinary p := List.mem_filter.mpr ⟨hstmt, by rw [declared]; rfl⟩
    rw [h.statements] at kept
    exact List.mem_of_mem_filter kept
  | some d =>
    obtain rfl := Procedure.ofStmt?_eq_some declared
    exact mem_hoisted.mp ((h.procedures d).mp (mem_hoisted.mpr hstmt))

theorem eq_nil (h : Rearranged [] q) : q = [] :=
  List.eq_nil_iff_forall_not_mem.mpr fun _ hstmt ↦ List.not_mem_nil (h.symm.mem hstmt)

end Rearranged

/-- With distinct names, everything that the program declares agrees with its top level. -/
theorem DistinctNames.declares {program : Program} (h : DistinctNames program) :
    Declares (Agrees (hoisted program)) program := by
  intro d hd e he same
  exact List.inj_on_of_nodup_map h hd (mem_declaredAll_of_mem_hoisted he) same

/-! ## The table -/

namespace Environment

theorem globals_defineAll (env : Environment) (ps : List Procedure) :
    (ps.foldl defineProcedure env).globals = env.globals := by
  induction ps generalizing env with
  | nil => rfl
  | cons p ps ih => exact ih (env.defineProcedure p)

theorem frames_defineAll (env : Environment) (ps : List Procedure) :
    (ps.foldl defineProcedure env).frames = env.frames := by
  induction ps generalizing env with
  | nil => rfl
  | cons p ps ih => exact ih (env.defineProcedure p)

theorem getElem?_defineProcedure (env : Environment) (p : Procedure) (key : String) :
    (env.defineProcedure p).procedures[key]? =
      if Text.foldCase p.name = key then some p else env.procedures[key]? := by
  simp [defineProcedure, Std.ExtTreeMap.getElem?_insert]

theorem getElem?_defineAll_of_ne (env : Environment) {ps : List Procedure} {key : String}
    (h : ∀ p ∈ ps, Text.foldCase p.name ≠ key) :
    (ps.foldl defineProcedure env).procedures[key]? = env.procedures[key]? := by
  induction ps generalizing env with
  | nil => rfl
  | cons p ps ih =>
    obtain ⟨first, rest⟩ := List.forall_mem_cons.mp h
    exact (ih (env.defineProcedure p) rest).trans
      ((env.getElem?_defineProcedure p key).trans (if_neg first))

/-- Of procedures under one name the last is kept; if they are all the same, it is that one. -/
theorem getElem?_defineAll_of_mem (env : Environment) {ps : List Procedure} {e : Procedure}
    (agree : ∀ p ∈ ps, Text.foldCase p.name = Text.foldCase e.name → p = e)
    (h : e ∈ ps ∨ env.procedures[Text.foldCase e.name]? = some e) :
    (ps.foldl defineProcedure env).procedures[Text.foldCase e.name]? = some e := by
  induction ps generalizing env with
  | nil => exact h.resolve_left List.not_mem_nil
  | cons p ps ih =>
    obtain ⟨first, rest⟩ := List.forall_mem_cons.mp agree
    apply ih (env.defineProcedure p) rest
    by_cases same : Text.foldCase p.name = Text.foldCase e.name
    · right
      rw [getElem?_defineProcedure, if_pos same, first same]
    · rcases h with mem | known
      · left
        rcases List.mem_cons.mp mem with rfl | mem
        · exact absurd rfl same
        · exact mem
      · right
        rwa [getElem?_defineProcedure, if_neg same]

/-- Defining a procedure again changes nothing. -/
theorem defineProcedure_eq_self {env : Environment} {p : Procedure}
    (h : env.procedures[Text.foldCase p.name]? = some p) : env.defineProcedure p = env := by
  obtain ⟨globals, frames, procedures⟩ := env
  refine congrArg (mk globals frames) (Std.ExtTreeMap.ext_getElem? fun {key} ↦ ?_)
  have defined := getElem?_defineProcedure ⟨globals, frames, procedures⟩ p key
  dsimp only [defineProcedure] at defined
  rw [defined]
  split
  · next same => rw [← same, h]
  · rfl

end Environment

/-- The tables of two programs with the same declarations are the same, whatever the order. -/
theorem Rearranged.defineAll {p q : Program} (h : Rearranged p q) (distinct : DistinctNames p)
    (env : Environment) :
    (hoisted p).foldl Environment.defineProcedure env =
      (hoisted q).foldl Environment.defineProcedure env := by
  have agree (e : Procedure) (he : e ∈ hoisted p) :
      ∀ d ∈ hoisted p, Text.foldCase d.name = Text.foldCase e.name → d = e :=
    fun d hd ↦ distinct.declares d (mem_declaredAll_of_mem_hoisted hd) e he
  have procedures : ((hoisted p).foldl Environment.defineProcedure env).procedures =
      ((hoisted q).foldl Environment.defineProcedure env).procedures := by
    refine Std.ExtTreeMap.ext_getElem? fun {key} ↦ ?_
    by_cases named : ∃ e ∈ hoisted p, Text.foldCase e.name = key
    · obtain ⟨e, he, rfl⟩ := named
      rw [env.getElem?_defineAll_of_mem (agree e he) (.inl he),
        env.getElem?_defineAll_of_mem (fun d hd ↦ agree e he d ((h.procedures d).mpr hd))
          (.inl ((h.procedures e).mp he))]
    · push Not at named
      rw [env.getElem?_defineAll_of_ne named,
        env.getElem?_defineAll_of_ne fun d hd ↦ named d ((h.procedures d).mpr hd)]
  have globals := (env.globals_defineAll (hoisted p)).trans (env.globals_defineAll (hoisted q)).symm
  have frames := (env.frames_defineAll (hoisted p)).trans (env.frames_defineAll (hoisted q)).symm
  generalize (hoisted p).foldl Environment.defineProcedure env = left at *
  generalize (hoisted q).foldl Environment.defineProcedure env = right at *
  obtain ⟨globals₁, frames₁, procedures₁⟩ := left
  obtain ⟨globals₂, frames₂, procedures₂⟩ := right
  dsimp only at globals frames procedures
  rw [globals, frames, procedures]

/-! ## Runs -/

/-- The procedures are in the table, and nothing that is known declares another one under their
names. -/
structure State.Settled (s : State) (procedures : List Procedure) : Prop where
  known : s.Known (Agrees procedures)
  defined : ∀ e ∈ procedures, s.env.procedures[Text.foldCase e.name]? = some e

/-- The program has put its procedures into the table. -/
theorem State.Undisturbed.settled {s : State} {p : Program} (h : s.Undisturbed p)
    (distinct : DistinctNames p) :
    State.Settled { s with env := (hoisted p).foldl Environment.defineProcedure s.env }
      (hoisted p) where
  known key d hd := by
    by_cases named : ∃ e ∈ hoisted p, Text.foldCase e.name = key
    · obtain ⟨e, he, rfl⟩ := named
      have defined := s.env.getElem?_defineAll_of_mem
        (fun d hd ↦ distinct.declares d (mem_declaredAll_of_mem_hoisted hd) e he) (.inl he)
      obtain rfl : e = d := Option.some.inj (defined.symm.trans hd)
      exact fun q hq ↦ distinct.declares q
        (mem_declaredAll.mpr ⟨_, mem_hoisted.mp he, List.mem_cons_of_mem _ hq⟩)
    · push Not at named
      exact h key d ((s.env.getElem?_defineAll_of_ne named).symm.trans hd) named
  defined e he :=
    s.env.getElem?_defineAll_of_mem
      (fun d hd ↦ distinct.declares d (mem_declaredAll_of_mem_hoisted hd) e he) (.inl he)

namespace Control

variable {procedures : List Procedure}

/-- No change takes a procedure out of the table if all that is declared agrees with it. -/
theorem defined_of_change {e : Procedure} (he : e ∈ procedures) {s s' : State}
    (h : s.Change (Agrees procedures) s') (hs : s.env.procedures[Text.foldCase e.name]? = some e) :
    s'.env.procedures[Text.foldCase e.name]? = some e := by
  cases h with
  | assign n v => exact (congrArg (·[_]?) (s.env.assign_procedures n v)).trans hs
  | declare n v unbound => exact (congrArg (·[_]?) (s.env.declare_procedures n v)).trans hs
  | define ps hps => exact s.env.getElem?_defineAll_of_mem (fun d hd ↦ (hps d hd).1 e he) (.inr hs)
  | note n => exact (congrArg (·.procedures[_]?) (s.noted_env n)).trans hs
  | _ => exact hs

/-- A statement that ends leaves the table settled. -/
theorem settled_exec {fuel : Nat} {stmt : Stmt} (hstmt : ∀ d ∈ stmt.declared, Agrees procedures d)
    {s s' : State} (hs : s.Settled procedures) (h : Machine.exec fuel stmt s = .ok () s') :
    s'.Settled procedures := by
  have start : (Config.running (.stmt stmt) [] s).Within (Agrees procedures) :=
    ⟨Code.within_stmt hstmt, trivial, hs.known⟩
  have settles := (realizes_eval_exec fuel).2 stmt [] s
  change Settles _ _ _ (EStateM.bind (Machine.exec fuel stmt) _ s) at settles
  unfold EStateM.bind at settles
  rw [h] at settles
  cases settles with
  | value run =>
    have kept (e : Procedure) (he : e ∈ procedures) := start.reaches
      (P := fun s ↦ s.env.procedures[Text.foldCase e.name]? = some e)
      (fun _ _ ↦ defined_of_change he) (fun _ known ↦ known) run (hs.defined e he)
    have known := start.reaches (P := fun _ ↦ True) (fun _ _ _ _ ↦ trivial)
        (fun _ _ ↦ trivial) run trivial
    exact ⟨known.1.2.2, fun e he ↦ (kept e he).2⟩

end Control

namespace Machine

theorem execAll_cons_of_ok {exec : Stmt → Machine Unit} {stmt : Stmt} {s s' : State}
    (h : exec stmt s = .ok () s') (stmts : List Stmt) :
    execAll exec (stmt :: stmts) s = execAll exec stmts s' := by
  change EStateM.bind (exec stmt) (fun _ ↦ execAll exec stmts) s = _
  unfold EStateM.bind
  rw [h]

theorem execAll_cons_of_error {exec : Stmt → Machine Unit} {stmt : Stmt} {i : Interrupt}
    {s s' : State} (h : exec stmt s = .error i s') (stmts : List Stmt) :
    execAll exec (stmt :: stmts) s = .error i s' := by
  change EStateM.bind (exec stmt) (fun _ ↦ execAll exec stmts) s = _
  unfold EStateM.bind
  rw [h]

/-- In a settled state, executing the declarations of a program changes nothing. -/
theorem execAll_ordinary {procedures : List Procedure} (fuel : Nat) {program : Program}
    (top : ∀ d ∈ hoisted program, d ∈ procedures) (declares : Declares (Agrees procedures) program)
    {s : State} (hs : s.Settled procedures) :
    execAll (exec (fuel + 1)) program s = execAll (exec (fuel + 1)) (ordinary program) s := by
  induction program generalizing s with
  | nil => rfl
  | cons stmt program ih =>
    obtain ⟨first, rest⟩ := declares.cons
    have later : ∀ d ∈ hoisted program, d ∈ procedures := fun d hd ↦
      top d (mem_hoisted.mpr (List.mem_cons_of_mem _ (mem_hoisted.mp hd)))
    cases declared : Procedure.ofStmt? stmt with
    | none =>
      have kept : ordinary (stmt :: program) = stmt :: ordinary program :=
        List.filter_cons_of_pos (by rw [declared]; rfl)
      rw [kept]
      cases ended : exec (fuel + 1) stmt s with
      | ok _ s' =>
        rw [execAll_cons_of_ok ended, execAll_cons_of_ok ended]
        exact ih later rest (Control.settled_exec first hs ended)
      | error i s' => rw [execAll_cons_of_error ended, execAll_cons_of_error ended]
    | some d =>
      obtain rfl := Procedure.ofStmt?_eq_some declared
      have dropped : ordinary (.procedure d.kind d.name d.params d.body :: program) =
          ordinary program :=
        List.filter_cons_of_neg (by rw [declared]; exact Bool.false_ne_true)
      rw [dropped]
      have known := hs.defined d (top d (mem_hoisted.mpr List.mem_cons_self))
      have again : exec (fuel + 1) (.procedure d.kind d.name d.params d.body) s = .ok () s := by
        change EStateM.Result.ok () { s with env := s.env.defineProcedure d } = .ok () s
        rw [Environment.defineProcedure_eq_self known]
      rw [execAll_cons_of_ok again]
      exact ih later rest hs

end Machine

/-- The place of the declarations in a program does not matter. If the names of all procedures that
it declares are distinct, and the table has no procedure that would declare another one under the
name of one of them, then a program with the same declarations in other places runs in the same way:
with the same outcome, be it a failure, and to the same state, with the same lines printed. -/
theorem State.run_rearranged {p q : Program} (h : Rearranged p q) (distinct : DistinctNames p)
    {s : State} (hs : s.Undisturbed p) (fuel : Nat) : s.run fuel p = s.run fuel q := by
  have settled := hs.settled distinct
  have declares : Declares (Agrees (hoisted p)) q := by
    intro d hd
    obtain ⟨stmt, mem, declared⟩ := mem_declaredAll.mp hd
    exact distinct.declares d (mem_declaredAll.mpr ⟨stmt, h.symm.mem mem, declared⟩)
  suffices same : Machine.runProgram fuel p s = Machine.runProgram fuel q s by
    unfold State.run Machine.finish
    rw [same]
  change Machine.execAll (Machine.exec fuel) p { s with env := (hoisted p).foldl _ s.env } =
    Machine.execAll (Machine.exec fuel) q { s with env := (hoisted q).foldl _ s.env }
  rw [← h.defineAll distinct]
  cases fuel with
  | zero =>
    cases p with
    | nil => rw [h.eq_nil]
    | cons first p =>
      cases q with
      | nil => cases h.symm.eq_nil
      | cons first' q => rfl
  | succ fuel =>
    rw [Machine.execAll_ordinary fuel (fun _ hd ↦ hd) distinct.declares settled,
      Machine.execAll_ordinary fuel (fun d hd ↦ (h.procedures d).mpr hd) declares settled,
        h.statements]

/-- The table has a procedure that declares another one when it is called, under a name of its
own. -/
theorem State.run_rearranged_behind :
    let known : Procedure := ⟨.sub, "Setup", [], [.procedure .sub "Other" [] []]⟩
    let s := { State.initial with env := State.initial.env.defineProcedure known }
    let call (name : String) : Stmt := .call (.call (.name name) [])
    let first : Stmt := .procedure .sub "First" [] [.procedure .sub "Inner" [] [], call "Setup"]
    let second : Stmt := .procedure .sub "Second" [] [call "First"]
    Rearranged [first, second, call "Second", call "Inner"]
      [call "Second", second, call "Inner", first] ∧
      DistinctNames [first, second, call "Second", call "Inner"] ∧
      s.Undisturbed [first, second, call "Second", call "Inner"] ∧
      s.run 20 [first, second, call "Second", call "Inner"] =
        s.run 20 [call "Second", second, call "Inner", first] := by
  intro known s call first second
  have moved : Rearranged [first, second, call "Second", call "Inner"]
      [call "Second", second, call "Inner", first] :=
    ⟨rfl, fun d ↦ by
      change d ∈ [_, _] ↔ d ∈ [_, _]
      rw [List.mem_pair, List.mem_pair]
      exact or_comm⟩
  have distinct : DistinctNames [first, second, call "Second", call "Inner"] := by decide
  have undisturbed : s.Undisturbed [first, second, call "Second", call "Inner"] := by
    have apart : ∀ d ∈ declaredAll known.body,
        ∀ e ∈ hoisted [first, second, call "Second", call "Inner"],
          Text.foldCase d.name ≠ Text.foldCase e.name := by decide
    intro key d hd _
    rw [State.initial.env.getElem?_defineProcedure known key] at hd
    split at hd
    · obtain rfl := Option.some.inj hd
      exact fun d hd e he same ↦ absurd same (apart d hd e he)
    · cases hd
  exact ⟨moved, distinct, undisturbed, State.run_rearranged moved distinct undisturbed 20⟩

/-- Without the condition on the table, the place of a declaration matters: `P` was declared in an
earlier run, and declares a `Q` of its own when it is called. -/
theorem State.run_rearranged_disturbed :
    let print (line : String) : Stmt := .call (.call (.member (.name "Debug") "Print") [.text line])
    let call (name : String) : Stmt := .call (.call (.name name) [])
    let s := (State.initial.run 1 [.procedure .sub "P" [] [.procedure .sub "Q" [] [print "old"]]]).2
    let p : Program := [.procedure .sub "Q" [] [print "new"], call "P", call "Q"]
    let q : Program := [call "P", .procedure .sub "Q" [] [print "new"], call "Q"]
    s.Hosted ∧ Rearranged p q ∧ DistinctNames p ∧ DistinctNames q ∧
      (s.run 6 p).1 = .done () ∧ (s.run 6 p).2.output = #["old"] ∧
      (s.run 6 q).1 = .done () ∧ (s.run 6 q).2.output = #["new"] := by
  intro print call s p q
  refine ⟨.run .initial _ _, ⟨rfl, fun d ↦ Iff.rfl⟩, ?_, ?_, ?_, ?_, ?_, ?_⟩
  · decide
  · decide
  all_goals decide +kernel

end MiniBasic
