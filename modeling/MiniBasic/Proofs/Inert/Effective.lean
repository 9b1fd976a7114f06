import MiniBasic.Proofs.Machine.Isolation

/-!
# What has an effect

Of a program, a run never uses `On Error`, labels and most options, the name after `Next`,
`Preserve`, and the bounds of a `ReDim` other than the last. `effectiveAll` takes all of this out of
a block, at every depth. What it leaves of each statement is executed like the statement, and what
it skips is inert.
-/

namespace MiniBasic

mutual

/-- The statement without what has no effect, if anything is left. -/
def Stmt.effective : Stmt → Option Stmt
  | .forLoop counter start stop step body _ =>
    some (.forLoop counter start stop step (effectiveAll body) none)
  | .ifThen condition body alternative =>
    some (.ifThen condition (effectiveAll body) alternative.effective)
  | .doWhile condition body => some (.doWhile condition (effectiveAll body))
  | .procedure kind name params body => some (.procedure kind name params (effectiveAll body))
  | .reDim name bounds _ => some (.reDim name bounds.getLast?.toList false)
  | .onError _ => none
  | .label _ => none
  | .option .explicit => none
  | .option (.compare _) => none
  | stmt => some stmt

def Alternative.effective : Alternative → Alternative
  | .none => .none
  | .block body => .block (effectiveAll body)
  | .elseIf condition body alternative =>
    .elseIf condition (effectiveAll body) alternative.effective

def effectiveAll : List Stmt → List Stmt
  | [] => []
  | stmt :: stmts =>
    match stmt.effective with
    | some stmt => stmt :: effectiveAll stmts
    | none => effectiveAll stmts

end

/-- The second block is the first, with or without what has no effect. -/
def Reduced (body body' : List Stmt) : Prop :=
  body' = body ∨ body' = effectiveAll body

theorem Alternative.alike_effective : ∀ a : Alternative, a.Alike id Reduced a.effective
  | .none => .none
  | .block _ => .block (.inr rfl)
  | .elseIf _ _ a => .elseIf rfl (.inr rfl) a.alike_effective

/-- What is left of a statement is executed like the statement. -/
theorem Stmt.alike_effective {stmt stmt' : Stmt} (h : stmt.effective = some stmt') :
    stmt.Alike id Reduced stmt' := by
  have same (stmt : Stmt) : stmt.Alike id Reduced stmt := .refl (fun _ ↦ .inl rfl) stmt
  cases stmt with
  | forLoop counter start stop step body closing =>
    cases h
    exact .forLoop rfl rfl rfl rfl (.inr rfl)
  | ifThen condition body alternative =>
    cases h
    exact .ifThen (.elseIf rfl (.inr rfl) alternative.alike_effective)
  | doWhile condition body =>
    cases h
    exact .doWhile rfl (.inr rfl)
  | procedure kind name params body =>
    cases h
    exact .procedure (p := ⟨kind, name, params, body⟩)
      (q := ⟨kind, name, params, effectiveAll body⟩) ⟨rfl, rfl, rfl, .inr rfl⟩
  | reDim name bounds preserve =>
    cases h
    refine .reDim rfl ?_
    cases bounds.getLast? with
    | none => rfl
    | some bound => rfl
  | option setting =>
    cases setting with
    | base n =>
      cases h
      exact same _
    | explicit => cases h
    | compare mode => cases h
  | onError policy => cases h
  | label name => cases h
  | _ =>
    cases h
    exact same _

/-- The statements of the second block are alike to those of the first, of which inert ones may be
skipped. -/
inductive Skips : List Stmt → List Stmt → Prop
  | nil : Skips [] []
  | skip {stmt : Stmt} {stmts stmts' : List Stmt} (inert : stmt.effective = none)
    (h : Skips stmts stmts') :
    Skips (stmt :: stmts) stmts'
  | keep {stmt stmt' : Stmt} {stmts stmts' : List Stmt} (alike : stmt.Alike id Reduced stmt')
    (h : Skips stmts stmts') : Skips (stmt :: stmts) (stmt' :: stmts')

theorem skips_refl (stmts : List Stmt) : Skips stmts stmts := by
  induction stmts with
  | nil => exact .nil
  | cons stmt stmts ih => exact .keep (.refl (fun _ ↦ .inl rfl) stmt) ih

theorem skips_effectiveAll (stmts : List Stmt) : Skips stmts (effectiveAll stmts) := by
  induction stmts with
  | nil => exact .nil
  | cons stmt stmts ih =>
    rw [effectiveAll]
    cases h : stmt.effective with
    | none => exact .skip h ih
    | some stmt' => exact .keep (stmt.alike_effective h) ih

theorem Reduced.skips {body body' : List Stmt} (h : Reduced body body') : Skips body body' := by
  rcases h with rfl | rfl
  · exact skips_refl _
  · exact skips_effectiveAll _

end MiniBasic
