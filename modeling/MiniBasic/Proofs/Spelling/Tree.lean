import MiniBasic.Proofs.Spelling.Case
import MiniBasic.RuntimeError

/-!
# Respelling

`respell f` changes the spelling of every name in a tree by `f` and leaves string literals alone.
Two trees with the same image under `respell f` differ in spelling only: for `f = Text.foldCase` in
the case of letters, for `f = id` not at all.
-/

namespace MiniBasic

/-- The expression with every name in it respelled by `f`; string literals stay as they are. -/
def Expr.respell (f : String → String) : Expr → Expr
  | number x => number x
  | text s => text s
  | name n => name (f n)
  | unary op e => unary op (e.respell f)
  | binary op l r => binary op (l.respell f) (r.respell f)
  | call callee args => call (callee.respell f) (args.map (respell f))
  | member object property => member (object.respell f) (f property)
  | new typeName => new (f typeName)

def Param.respell (f : String → String) (p : Param) : Param :=
  ⟨f p.name, p.byValue, p.fallback.map (·.respell f)⟩

def Declarator.respell (f : String → String) (d : Declarator) : Declarator :=
  ⟨f d.name, d.bounds.map (·.map (·.respell f)), d.newObject.map f⟩

def OptionSetting.respell (f : String → String) : OptionSetting → OptionSetting
  | explicit => explicit
  | base n => base n
  | compare mode => compare (f mode)

def ErrorPolicy.respell (f : String → String) : ErrorPolicy → ErrorPolicy
  | goTo label => goTo (f label)
  | resumeNext => resumeNext

mutual

/-- The statement with every name in it respelled by `f`. -/
def Stmt.respell (f : String → String) : Stmt → Stmt
  | .forLoop counter start stop step body closing =>
    .forLoop (f counter) (start.respell f) (stop.respell f) (step.map (·.respell f))
      (body.map (Stmt.respell f)) (closing.map f)
  | .ifThen condition body alternative =>
    .ifThen (condition.respell f) (body.map (Stmt.respell f)) (alternative.respell f)
  | .doWhile condition body => .doWhile (condition.respell f) (body.map (Stmt.respell f))
  | .procedure kind name params body =>
    .procedure kind (f name) (params.map (·.respell f)) (body.map (Stmt.respell f))
  | .dim declarators => .dim (declarators.map (·.respell f))
  | .const name value => .const (f name) (value.respell f)
  | .set target value => .set (target.respell f) (value.respell f)
  | .assign target value => .assign (target.respell f) (value.respell f)
  | .onError policy => .onError (policy.respell f)
  | .erase names => .erase (names.map f)
  | .reDim name bounds preserve => .reDim (f name) (bounds.map (·.respell f)) preserve
  | .exit target => .exit target
  | .label name => .label (f name)
  | .option setting => .option (setting.respell f)
  | .call e => .call (e.respell f)

def Alternative.respell (f : String → String) : Alternative → Alternative
  | .none => .none
  | .block body => .block (body.map (Stmt.respell f))
  | .elseIf condition body alternative =>
    .elseIf (condition.respell f) (body.map (Stmt.respell f)) (alternative.respell f)

end

namespace Expr

theorem respell_id (e : Expr) : e.respell id = e := by
  fun_induction respell id e with
  | case1 x => rfl
  | case2 s => rfl
  | case3 n => rfl
  | case4 op e ih => rw [ih]
  | case5 op l r ihl ihr => rw [ihl, ihr]
  | case6 callee args ihc iha =>
    rw [ihc, List.map_congr_left iha, List.map_id']
  | case7 object property ih => rw [ih]; rfl
  | case8 typeName => rfl

end Expr

/-! ## Nothing respelled -/

theorem Param.respell_id (p : Param) : p.respell id = p := by
  simp [respell, Expr.respell_id]

theorem Declarator.respell_id (d : Declarator) : d.respell id = d := by
  simp [respell, Expr.respell_id]

theorem OptionSetting.respell_id (o : OptionSetting) : o.respell id = o := by
  cases o <;> rfl

theorem ErrorPolicy.respell_id (p : ErrorPolicy) : p.respell id = p := by
  cases p <;> rfl

theorem map_respell_id {body : List Stmt} (h : ∀ s ∈ body, s.respell id = s) :
    body.map (Stmt.respell id) = body :=
  (List.map_congr_left h).trans (List.map_id' body)

mutual

theorem Stmt.respell_id (s : Stmt) : s.respell id = s := by
  cases s with
  | forLoop counter start stop step body closing =>
    have body := map_respell_id fun s (_ : s ∈ body) ↦ Stmt.respell_id s
    simp [Stmt.respell, body, Expr.respell_id]
  | ifThen condition body alternative =>
    have body := map_respell_id fun s (_ : s ∈ body) ↦ Stmt.respell_id s
    rw [Stmt.respell, body, Expr.respell_id, Alternative.respell_id]
  | doWhile condition body =>
    have body := map_respell_id fun s (_ : s ∈ body) ↦ Stmt.respell_id s
    rw [Stmt.respell, body, Expr.respell_id]
  | procedure kind name params body =>
    have body := map_respell_id fun s (_ : s ∈ body) ↦ Stmt.respell_id s
    simp [Stmt.respell, body, Param.respell_id]
  | _ =>
    simp [Stmt.respell, Expr.respell_id, Declarator.respell_id, OptionSetting.respell_id,
      ErrorPolicy.respell_id]

theorem Alternative.respell_id (a : Alternative) : a.respell id = a := by
  cases a with
  | none => rw [Alternative.respell]
  | block body =>
    rw [Alternative.respell, map_respell_id fun s (_ : s ∈ body) ↦ Stmt.respell_id s]
  | elseIf condition body alternative =>
    have body := map_respell_id fun s (_ : s ∈ body) ↦ Stmt.respell_id s
    rw [Alternative.respell, body, Expr.respell_id, Alternative.respell_id]

end

/-! ## Parts of trees -/

theorem Expr.respell_asCall (f : String → String) (e : Expr) :
    e.asCall.respell f = (e.respell f).asCall := by
  cases e <;> simp only [asCall, respell, List.map_nil]

theorem Param.respell_eq {f : String → String} {p q : Param} (h : p.respell f = q.respell f) :
    f p.name = f q.name ∧ p.byValue = q.byValue ∧
      p.fallback.map (·.respell f) = q.fallback.map (·.respell f) := by
  simpa only [Param.respell, Param.mk.injEq] using h

/-! ## Errors

The names that an error quotes are spelled as in the source. -/

def AssignmentFault.respell (f : String → String) : AssignmentFault → AssignmentFault
  | member property type => member (f property) type
  | notAssignable => notAssignable
  | missingIndex name => missingIndex (f name)

/-- The error with the names that its message quotes respelled by `f`. -/
def RuntimeError.respell (f : String → String) : RuntimeError → RuntimeError
  | unknownProcedure name => unknownProcedure (f name)
  | notIndexable name type => notIndexable (f name) type
  | unknownMember member type => unknownMember (f member) type
  | invalidAssignment fault => invalidAssignment (fault.respell f)
  | unmatchedExit target => unmatchedExit target
  | indexOutOfRange index => indexOutOfRange index
  | divisionByZero => divisionByZero
  | unsupportedObject name => unsupportedObject (f name)
  | arityMismatch name expected received => arityMismatch (f name) expected received
  | malformed error => malformed error

theorem RuntimeError.respell_id (e : RuntimeError) : e.respell id = e := by
  cases e with
  | invalidAssignment fault => cases fault <;> rfl
  | _ => rfl

end MiniBasic
