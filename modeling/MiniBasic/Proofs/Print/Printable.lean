import MiniBasic.Proofs.Print.Printer

/-!
# Trees that can be printed

Not every tree is the tree of a program text: names have to be words, string literals cannot hold
quotes, and numbers have no sign. The trees that are `Printable` consist of such parts, and their
tokens are spelled as their kinds say.
-/

namespace MiniBasic

open Token (Word Spelled word keyword symbol lineEnd)

/-- Items with a separator between them. -/
theorem separated_cons {α : Type} (t : α) (item : List α) (items : List (List α)) :
    [t].intercalate (item :: items) = item ++ items.flatMap (t :: ·) := by
  induction items generalizing item with
  | nil => simp
  | cons next items ih =>
    rw [List.intercalate_cons_cons, ih, List.flatMap_cons]
    simp

/-! ## Type names -/

/-- Words with dots between them. -/
def TypeName (name : String) : Prop :=
  ∃ (w : String) (ws : List String), Word w ∧ (∀ v ∈ ws, Word v) ∧
    name = ws.foldl (fun n v ↦ n ++ "." ++ v) w

theorem Token.Word.dot_not_mem {w : String} (h : Word w) : '.' ∉ w.toList := by
  obtain ⟨⟨c, cs, hw, hc, hcs⟩, -⟩ := h
  rw [hw]
  rintro (_ | ⟨_, dot⟩)
  · exact absurd hc (by decide)
  · exact absurd (hcs _ dot) (by decide)

theorem splitOn_foldl {ws : List String} (hws : ∀ v ∈ ws, Word v) (name : String) :
    (ws.foldl (fun n v ↦ n ++ "." ++ v) name).toList.splitOn '.' =
      name.toList.splitOn '.' ++ ws.map String.toList := by
  induction ws generalizing name with
  | nil => simp
  | cons v ws ih =>
    have last : v.toList.splitOn '.' = [v.toList] :=
      List.splitOn_eq_singleton (hws v (List.mem_cons_self ..)).dot_not_mem
    have dotted : (name ++ "." ++ v).toList = name.toList ++ '.' :: v.toList := by simp
    rw [List.foldl_cons, ih fun w hw ↦ hws w (List.mem_cons_of_mem _ hw), dotted,
      List.splitOn_append_cons_self, last, List.append_assoc]
    rfl

/-- The tokens of a type name are its words and the dots between them. -/
theorem typeTokens_foldl {w : String} (hw : Word w) {ws : List String} (hws : ∀ v ∈ ws, Word v) :
    typeTokens (ws.foldl (fun n v ↦ n ++ "." ++ v) w) =
      word w :: ws.flatMap fun v ↦ [symbol .dot, word v] := by
  have first : w.toList.splitOn '.' = [w.toList] := List.splitOn_eq_singleton hw.dot_not_mem
  rw [typeTokens, splitOn_foldl hws, first, List.singleton_append, List.map_cons, List.map_map,
    separated_cons, String.ofList_toList, List.flatMap_map]
  simp only [Function.comp_apply, String.ofList_toList, List.singleton_append]

/-! ## Expressions -/

/-- Expressions of which every part can be written. -/
inductive Expr.Printable : Expr → Prop
  | number {x : Float} (h : Number.Unsigned x) : Printable (.number x)
  | text {s : String} (h : Spelled .text s) : Printable (.text s)
  | name {n : String} (h : Spelled .identifier n ∨ Spelled (.keyword .emptyKw) n) :
    Printable (.name n)
  | unary {op : UnaryOp} {e : Expr} (h : Printable e) : Printable (.unary op e)
  | binary {op : BinaryOp} {l r : Expr} (hl : Printable l) (hr : Printable r) :
    Printable (.binary op l r)
  | call {callee : Expr} {args : List Expr} (h : Printable callee)
    (hargs : ∀ a ∈ args, Printable a) :
    Printable (.call callee args)
  | member {object : Expr} {property : String} (h : Printable object) (hp : Word property) :
    Printable (.member object property)
  | new {type : String} (h : TypeName type) : Printable (.new type)

/-- An expression that begins with a name. -/
def Expr.Rooted : Expr → Prop
  | name n => Spelled .identifier n
  | call callee _ => callee.Rooted
  | member object _ => object.Rooted
  | _ => False

/-! ## Statements -/

structure Param.Printable (p : Param) : Prop where
  name : Spelled .identifier p.name
  fallback : ∀ e ∈ p.fallback, e.Printable

structure Declarator.Printable (d : Declarator) : Prop where
  name : Spelled .identifier d.name
  bounds : ∀ bounds ∈ d.bounds, ∀ e ∈ bounds, Expr.Printable e
  newObject : ∀ type ∈ d.newObject, TypeName type

def OptionSetting.Printable : OptionSetting → Prop
  | explicit => True
  | base n => ∃ x, n = Number.toWord Number.wholePart x
  | compare mode => Spelled .identifier mode

def ErrorPolicy.Printable : ErrorPolicy → Prop
  | goTo label => Spelled .identifier label ∨ Spelled .number label
  | resumeNext => True

/-- Statements of which every part can be written. -/
inductive Stmt.Printable : Stmt → Prop
  | forLoop {counter : String} {start stop : Expr} {step : Option Expr} {body : List Stmt}
      {closing : Option String} (hcounter : Spelled .identifier counter) (hstart : start.Printable)
      (hstop : stop.Printable) (hstep : ∀ e ∈ step, e.Printable) (hbody : ∀ s ∈ body, Printable s)
      (hclosing : ∀ n ∈ closing, Spelled .identifier n) :
    Printable (.forLoop counter start stop step body closing)
  | ifThen {condition : Expr} {body : List Stmt} (hcondition : condition.Printable)
      (hbody : ∀ s ∈ body, Printable s) : Printable (.ifThen condition body .none)
  | ifElse {condition : Expr} {body otherwise : List Stmt} (hcondition : condition.Printable)
      (hbody : ∀ s ∈ body, Printable s) (hotherwise : ∀ s ∈ otherwise, Printable s) :
    Printable (.ifThen condition body (.block otherwise))
  | ifElseIf {condition next : Expr} {body nextBody : List Stmt} {alternative : Alternative}
      (hcondition : condition.Printable) (hbody : ∀ s ∈ body, Printable s)
      (hnext : Printable (.ifThen next nextBody alternative)) :
    Printable (.ifThen condition body (.elseIf next nextBody alternative))
  | doWhile {condition : Expr} {body : List Stmt} (hcondition : condition.Printable)
      (hbody : ∀ s ∈ body, Printable s) : Printable (.doWhile condition body)
  | procedure {kind : ProcedureKind} {name : String} {params : List Param} {body : List Stmt}
      (hname : Spelled .identifier name) (hparams : ∀ p ∈ params, p.Printable)
      (hbody : ∀ s ∈ body, Printable s) : Printable (.procedure kind name params body)
  | dim {declarators : List Declarator} (nonempty : declarators ≠ [])
      (h : ∀ d ∈ declarators, d.Printable) : Printable (.dim declarators)
  | const {name : String} {value : Expr} (hname : Spelled .identifier name)
    (hvalue : value.Printable) :
    Printable (.const name value)
  | set {target value : Expr} (htarget : target.Printable) (hvalue : value.Printable) :
    Printable (.set target value)
  | assign {target value : Expr} (hroot : target.Rooted) (htarget : target.Printable)
      (hvalue : value.Printable) : Printable (.assign target value)
  | onError {policy : ErrorPolicy} (h : policy.Printable) : Printable (.onError policy)
  | erase {names : List String} (nonempty : names ≠ []) (h : ∀ n ∈ names, Spelled .identifier n) :
    Printable (.erase names)
  | reDim {name : String} {bounds : List Expr} {preserve : Bool} (hname : Spelled .identifier name)
      (hpreserve : preserve = true ∨ Text.sameWord name "preserve" = false)
      (hbounds : ∀ e ∈ bounds, e.Printable) : Printable (.reDim name bounds preserve)
  | exit {target : ExitTarget} : Printable (.exit target)
  | label {name : String} (h : Spelled .identifier name) : Printable (.label name)
  | option {setting : OptionSetting} (h : setting.Printable) : Printable (.option setting)
  | call {callee : Expr} {args : List Expr} (h : (Expr.call callee args).Printable) :
    Printable (.call (.call callee args))

/-! ## Spelling -/

/-- Tokens that scanning can give back. -/
def AllSpelled (ts : List Token) : Prop :=
  ∀ t ∈ ts, Spelled t.kind t.text

@[simp] theorem allSpelled_nil : AllSpelled [] :=
  nofun

@[simp] theorem allSpelled_cons {t : Token} {ts : List Token} :
    AllSpelled (t :: ts) ↔ Spelled t.kind t.text ∧ AllSpelled ts :=
  List.forall_mem_cons

@[simp] theorem allSpelled_append {ts us : List Token} :
    AllSpelled (ts ++ us) ↔ AllSpelled ts ∧ AllSpelled us :=
  List.forall_mem_append

@[simp] theorem spelled_symbol (s : Symbol) : Spelled (symbol s).kind (symbol s).text :=
  rfl

@[simp] theorem spelled_lineEnd : Spelled lineEnd.kind lineEnd.text :=
  rfl

@[simp] theorem spelled_keyword (k : Keyword) : Spelled (keyword k).kind (keyword k).text := by
  cases k <;>
    exact ⟨⟨⟨_, _, String.toList_ofList, rfl, List.all_eq_true.mp (by decide)⟩, by decide⟩,
      by decide⟩

theorem Token.Word.spelled_word {w : String} (h : Word w) : Spelled (word w).kind (word w).text :=
  h.spelled

theorem spelled_identifier {n : String} (h : Spelled .identifier n) :
    Spelled (word n).kind (word n).text :=
  h.1.spelled

/-- The words that have a meaning in their place only are identifiers. -/
theorem identifier_contextual (w : String) (h : w ∈ ["Base", "Compare", "Resume", "Preserve"]) :
    Spelled .identifier w := by
  simp only [List.mem_cons, List.not_mem_nil, or_false] at h
  rcases h with rfl | rfl | rfl | rfl <;>
    exact ⟨⟨⟨_, _, String.toList_ofList, rfl, List.all_eq_true.mp (by decide)⟩, by decide⟩,
      by decide⟩

theorem spelled_contextual (w : String) (h : w ∈ ["Base", "Compare", "Resume", "Preserve"]) :
    Spelled (word w).kind (word w).text :=
  spelled_identifier (identifier_contextual w h)

theorem Token.label_identifier {l : String} (h : Spelled .identifier l) :
    Token.label l = word l := by
  obtain ⟨⟨⟨c, cs, hl, hc, -⟩, -⟩, -⟩ := h
  simp [Token.label, hl, Token.isDigit_of_isWordStart hc]

theorem Token.label_number {l : String} (h : Spelled .number l) : Token.label l = .number l := by
  obtain ⟨ds, fs, ms, hl, hn, -⟩ := h
  obtain ⟨d, ds, rfl⟩ := List.exists_cons_of_ne_nil hn.nonempty
  simp [Token.label, hl, hn.digits d (List.mem_cons_self ..)]

theorem allSpelled_separated (t : Token) (ht : Spelled t.kind t.text) {items : List (List Token)}
    (h : ∀ ts ∈ items, AllSpelled ts) : AllSpelled ([t].intercalate items) := by
  cases items with
  | nil => simp
  | cons item items =>
    rw [separated_cons, allSpelled_append]
    refine ⟨h item (List.mem_cons_self ..), fun u hu ↦ ?_⟩
    obtain ⟨ts, hts, hu⟩ := List.mem_flatMap.mp hu
    rcases List.mem_cons.mp hu with rfl | hu
    · exact ht
    · exact h ts (List.mem_cons_of_mem _ hts) u hu

theorem allSpelled_commas {α : Type} {f : α → List Token} {items : List α}
    (h : ∀ a ∈ items, AllSpelled (f a)) : AllSpelled (commas (items.map f)) :=
  allSpelled_separated _ (spelled_symbol _) (List.forall_mem_map.mpr h)

theorem allSpelled_parens {ts : List Token} (h : AllSpelled ts) : AllSpelled (parens ts) := by
  simp [parens, h]

theorem TypeName.allSpelled {type : String} (h : TypeName type) : AllSpelled (typeTokens type) := by
  obtain ⟨w, ws, hw, hws, rfl⟩ := h
  rw [typeTokens_foldl hw hws, allSpelled_cons]
  refine ⟨hw.spelled, fun t ht ↦ ?_⟩
  obtain ⟨v, hv, ht⟩ := List.mem_flatMap.mp ht
  have : AllSpelled [symbol .dot, word v] := by simp [(hws v hv).spelled_word]
  exact this t ht

theorem spelled_numeral {text : String} {ds fs : List Char} (htext : text.toList = ds ++ fs)
    (h : Number.Numeral ds fs) : Spelled .number text :=
  ⟨ds, fs, [], by rw [htext, List.append_nil], h, .none⟩

theorem UnaryOp.spelled_token (op : UnaryOp) : Spelled op.token.kind op.token.text := by
  cases op <;> simp [token]

theorem BinaryOp.spelled_token (op : BinaryOp) : Spelled op.token.kind op.token.text := by
  cases op <;> simp [token]

theorem Expr.allSpelled_asObject (e : Expr) {ts : List Token} (h : AllSpelled ts) :
    AllSpelled (e.asObject ts) := by
  cases e <;> first | exact allSpelled_parens h | exact h

theorem Expr.Printable.allSpelled {e : Expr} (h : e.Printable) : AllSpelled e.tokens := by
  induction h with
  | number h =>
    obtain ⟨ds, fs, htext, hn, -⟩ := Number.exists_write h .subscript
    simp only [tokens, allSpelled_cons, allSpelled_nil, and_true]
    exact spelled_numeral htext hn
  | text h =>
    simp only [tokens, allSpelled_cons, allSpelled_nil, and_true]
    exact h
  | name h =>
    simp only [tokens, allSpelled_cons, allSpelled_nil, and_true]
    exact (h.elim And.left And.left).spelled_word
  | unary h ih =>
    rw [tokens]
    exact allSpelled_parens (allSpelled_cons.mpr ⟨UnaryOp.spelled_token _, ih⟩)
  | binary hl hr ihl ihr =>
    rw [tokens]
    exact allSpelled_parens
      (allSpelled_append.mpr ⟨ihl, allSpelled_cons.mpr ⟨BinaryOp.spelled_token _, ihr⟩⟩)
  | call h hargs ih ihargs =>
    rw [tokens, allSpelled_append]
    exact ⟨allSpelled_asObject _ ih, allSpelled_parens (allSpelled_commas ihargs)⟩
  | member h hp ih =>
    rw [tokens, allSpelled_append]
    exact ⟨allSpelled_asObject _ ih, by simp [hp.spelled_word]⟩
  | new h =>
    rw [tokens, allSpelled_cons]
    exact ⟨spelled_keyword _, h.allSpelled⟩

theorem Expr.allSpelled_tokensBehind {t : Token} (ht : Spelled t.kind t.text) {e : Option Expr}
    (h : ∀ a ∈ e, Expr.Printable a) : AllSpelled (tokensBehind t e) := by
  cases e with
  | none => simp [tokensBehind]
  | some e => simp [tokensBehind, ht, (h e rfl).allSpelled]

theorem Param.Printable.allSpelled {p : Param} (h : p.Printable) : AllSpelled p.tokens := by
  simp [tokens, spelled_identifier h.name,
    Expr.allSpelled_tokensBehind (spelled_symbol .eq) h.fallback]

theorem Declarator.Printable.allSpelled {d : Declarator} (h : d.Printable) :
    AllSpelled d.tokens := by
  obtain ⟨name, bounds, newObject⟩ := d
  simp only [tokens, allSpelled_cons, allSpelled_append, List.cons_append]
  refine ⟨spelled_identifier h.name, ?_, ?_⟩
  · cases bounds with
    | none => exact allSpelled_nil
    | some bounds =>
      exact allSpelled_parens (allSpelled_commas fun e he ↦ (h.bounds bounds rfl e he).allSpelled)
  · cases newObject with
    | none => exact allSpelled_nil
    | some type => simp [(h.newObject type rfl).allSpelled]

theorem OptionSetting.Printable.allSpelled {o : OptionSetting} (h : o.Printable) :
    AllSpelled o.tokens := by
  cases o with
  | explicit => simp [tokens]
  | base n =>
    have : Number.Numeral (Nat.toDigits 10 n) [] :=
      ⟨Nat.toDigits_ne_nil, fun d ↦ Number.isDigit_toDigits, .none⟩
    have number : Spelled .number n.repr :=
      spelled_numeral (Nat.toList_repr.trans (List.append_nil _).symm) this
    simp only [tokens, allSpelled_cons, allSpelled_nil, and_true]
    exact ⟨spelled_contextual "Base" (by decide), number⟩
  | compare mode =>
    simp only [tokens, allSpelled_cons, allSpelled_nil, and_true]
    exact ⟨spelled_contextual "Compare" (by decide), spelled_identifier h⟩

theorem ErrorPolicy.Printable.allSpelled {p : ErrorPolicy} (h : p.Printable) :
    AllSpelled p.tokens := by
  cases p with
  | goTo label =>
    simp only [tokens, allSpelled_cons, allSpelled_nil, and_true]
    refine ⟨spelled_keyword .goToKw, ?_⟩
    rcases h with h | h
    · rw [Token.label_identifier h]
      exact spelled_identifier h
    · rw [Token.label_number h]
      exact h
  | resumeNext =>
    simp only [tokens, allSpelled_cons, allSpelled_nil, and_true]
    exact ⟨spelled_contextual "Resume" (by decide), spelled_keyword .nextKw⟩

theorem allSpelled_lines {body : List Stmt} (h : ∀ s ∈ body, AllSpelled s.tokens) :
    AllSpelled (body.flatMap fun s ↦ s.tokens ++ [lineEnd]) := by
  intro t ht
  obtain ⟨s, hs, ht⟩ := List.mem_flatMap.mp ht
  have : AllSpelled (s.tokens ++ [lineEnd]) := by simp [h s hs]
  exact this t ht

theorem Stmt.Printable.allSpelled {s : Stmt} (h : s.Printable) : AllSpelled s.tokens := by
  induction h with
  | forLoop hcounter hstart hstop hstep hbody hclosing ih =>
    have closing : AllSpelled (Option.map word _).toList := fun t ht ↦ by
      obtain ⟨n, hn, rfl⟩ := Option.map_eq_some_iff.mp (Option.mem_toList.mp ht)
      exact spelled_identifier (hclosing n hn)
    simp [tokens, spelled_identifier hcounter, hstart.allSpelled, hstop.allSpelled,
      Expr.allSpelled_tokensBehind (spelled_keyword .stepKw) hstep, allSpelled_lines ih, closing]
  | ifThen hcondition hbody ih =>
    simp [tokens, Alternative.tokens, hcondition.allSpelled, allSpelled_lines ih]
  | ifElse hcondition hbody hotherwise ih ih' =>
    simp [tokens, Alternative.tokens, hcondition.allSpelled, allSpelled_lines ih,
      allSpelled_lines ih']
  | ifElseIf hcondition hbody hnext ih ih' =>
    simp only [tokens, allSpelled_cons, allSpelled_append, List.cons_append] at ih'
    simp [tokens, Alternative.tokens, hcondition.allSpelled, allSpelled_lines ih, ih']
  | doWhile hcondition hbody ih =>
    simp [tokens, hcondition.allSpelled, allSpelled_lines ih]
  | procedure hname hparams hbody ih =>
    simp [tokens, spelled_identifier hname, allSpelled_lines ih,
      allSpelled_parens (allSpelled_commas fun p hp ↦ (hparams p hp).allSpelled)]
  | dim nonempty h =>
    simp [tokens, allSpelled_commas fun d hd ↦ (h d hd).allSpelled]
  | const hname hvalue =>
    simp [tokens, spelled_identifier hname, hvalue.allSpelled]
  | set htarget hvalue =>
    simp [tokens, htarget.allSpelled, hvalue.allSpelled]
  | assign hroot htarget hvalue =>
    simp [tokens, htarget.allSpelled, hvalue.allSpelled]
  | onError h =>
    simp [tokens, h.allSpelled]
  | @erase names nonempty h =>
    have each (n : String) (hn : n ∈ names) : AllSpelled [word n] := by
      simp [spelled_identifier (h n hn)]
    simp [tokens, allSpelled_commas each]
  | reDim hname hpreserve hbounds =>
    have bounds := allSpelled_parens (allSpelled_commas fun e he ↦ (hbounds e he).allSpelled)
    have preserve := spelled_contextual "Preserve" (by decide)
    simp only [tokens, allSpelled_cons, allSpelled_append, List.cons_append]
    refine ⟨spelled_keyword .reDimKw, ?_, spelled_identifier hname, bounds⟩
    split
    · simp [preserve]
    · simp
  | exit =>
    simp [tokens]
  | label h =>
    simp [tokens, spelled_identifier h]
  | option h =>
    simp [tokens, h.allSpelled]
  | call h =>
    simp [tokens, h.allSpelled]

end MiniBasic
