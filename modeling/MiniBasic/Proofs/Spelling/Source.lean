import MiniBasic.Proofs.Grammar.Bare
import MiniBasic.Proofs.Spelling.Run
import MiniBasic.Proofs.Spelling.Scan

/-!
# Letter case in source texts

Outside string literals, the case of ASCII letters has no effect on a program: not on where its
tokens are and what kind they are, not on whether and where parsing fails, and not on any run.
-/

namespace MiniBasic

namespace Token

theorem numberKept_tokenize {source : String} {t : Token} (h : t ∈ tokenize source) :
    t.NumberKept Text.foldCase :=
  foldCase_number h

theorem bare_folded (t : Token) : t.folded.bare Text.foldCase = t.bare Text.foldCase := by
  obtain ⟨kind, text, line, start, stop⟩ := t
  by_cases h : kind = .text
  · simp [folded, bare, h]
  · simp [folded, bare, h]

theorem Recased.bare {a b : String} (h : Recased a b) :
    (Token.tokenize a).map (Token.bare Text.foldCase) =
      (Token.tokenize b).map (Token.bare Text.foldCase) := by
  have same := congrArg (List.map (Token.bare Text.foldCase)) h.tokenize
  simpa only [List.map_map, Function.comp_def, bare_folded] using same

theorem folded_eq_of_getElem? {ts us : List Token} (h : ts.map folded = us.map folded) {i : Nat}
    {t u : Token} (ht : ts[i]? = some t) (hu : us[i]? = some u) : t.folded = u.folded := by
  have here : (ts.map folded)[i]? = (us.map folded)[i]? := by rw [h]
  rw [List.getElem?_map, List.getElem?_map, ht, hu] at here
  exact Option.some.inj here

/-! ## The end of the input -/

/-- The last token of a text is the one that a cursor sees behind the last token. -/
theorem getLast?_scan (line offset : Nat) (cs : List Char) :
    (scan line offset cs).getLast? = some (Cursor.ofTokens (scan line offset cs)).eof := by
  have last : ∃ line' offset', (scan line offset cs).getLast? =
      some ⟨.eof, "", line', offset', offset'⟩ := by
    induction cs using pieces_induct generalizing line offset with
    | nil => exact ⟨line, offset, by rw [scan_nil]; rfl⟩
    | cons c cs ih =>
      obtain ⟨line', offset', behind⟩ := ih _ _
      refine ⟨line', offset', ?_⟩
      rw [scan_cons, List.getLast?_append, behind]
      rfl
  obtain ⟨line', offset', last⟩ := last
  simp only [Cursor.ofTokens, last]

end Token

/-- The place of the cursor among the tokens of a text. At the end it is the place of the last
token. -/
def Cursor.index (c : Cursor) (tokens : List Token) : Nat :=
  min (tokens.length - c.rest.length) (tokens.length - 1)

theorem Cursor.getElem?_index {c : Cursor} {source : String}
    (h : c.Along (.ofTokens (Token.tokenize source))) :
    (Token.tokenize source)[c.index (Token.tokenize source)]? = some c.peek := by
  have last := Token.getLast?_scan 1 0 source.toList
  change (Token.tokenize source).getLast? =
    some (Cursor.ofTokens (Token.tokenize source)).eof at last
  generalize Token.tokenize source = tokens at h last ⊢
  obtain ⟨eof, passed, split⟩ := h
  change passed ++ c.rest = tokens at split
  unfold index peek
  cases hr : c.rest with
  | nil =>
    rw [List.length_nil, Nat.sub_zero, Nat.min_eq_right (Nat.sub_le _ _),
      ← List.getLast?_eq_getElem?, last, eof]
    rfl
  | cons t rest =>
    subst split
    rw [hr] at *
    simp

theorem Cursor.index_bare {f : String → String} {c d : Cursor} (h : c.bare f = d.bare f)
    {ts us : List Token} (length : ts.length = us.length) : c.index ts = d.index us := by
  have rest : c.rest.length = d.rest.length := by
    have lengths := congrArg (·.rest.length) h
    simpa only [bare, List.length_map] using lengths
  rw [index, index, length, rest]

/-! ## The whole pipeline -/

/-- What the sources `a` and `b` come to: both are programs, and these run alike from equivalent
states; or both are refused at the same token, for the same reason. -/
inductive SameFate (a b : String) : Except SyntaxError Program → Except SyntaxError Program → Prop
  | program {p q : Program}
      (runs : ∀ (fuel : Nat) (s t : State), s.Equivalent Text.foldCase t →
        SameRun Text.foldCase s t (s.run fuel p) (t.run fuel q)) :
    SameFate a b (.ok p) (.ok q)
  | refused {d e : SyntaxError} {i : Nat} (complaint : d.complaint = e.complaint)
      (left : (Token.tokenize a)[i]? = some d.token) (right : (Token.tokenize b)[i]? = some e.token)
      (folded : d.token.folded = e.token.folded) :
    SameFate a b (.error d) (.error e)

/-- The case of letters outside string literals has no effect. Two sources that differ in nothing
else have tokens of the same kinds, on the same lines and at the same places. If one of them is
refused, the other one is refused at the same token for the same reason. Otherwise their programs
print the same lines, end in the same way and leave the same variables and objects, in every run
from equivalent states. -/
theorem ignores_letterCase (a b : String) (h : Token.Recased a b) :
    (Token.tokenize a).map (fun t ↦ (t.kind, t.line, t.start, t.stop)) =
        (Token.tokenize b).map (fun t ↦ (t.kind, t.line, t.start, t.stop)) ∧
      SameFate a b (parse (Token.tokenize a)) (parse (Token.tokenize b)) := by
  have folded := h.tokenize
  have length : (Token.tokenize a).length = (Token.tokenize b).length := by
    rw [← List.length_map Token.folded, folded, List.length_map]
  constructor
  · have places := congrArg (List.map fun t : Token ↦ (t.kind, t.line, t.start, t.stop)) folded
    rwa [List.map_map, List.map_map] at places
  · have hf := Text.folding_foldCase
    have follows :=
      Comparison.follows_program_bare hf (Parser.nestingBound (Token.tokenize a))
    have ended := follows.ended (fun _ ↦ Token.numberKept_tokenize)
      (fun _ ↦ Token.numberKept_tokenize) h.bare
    unfold Parser.program at ended
    have fuel :
        Parser.nestingBound (Token.tokenize b) = Parser.nestingBound (Token.tokenize a) := by
      rw [Parser.nestingBound, Parser.nestingBound, length]
    unfold parse Parser.run
    dsimp only
    rw [fuel]
    generalize Parser.block _ [] _ (.ofTokens (Token.tokenize a)) = x at ended ⊢
    generalize Parser.block _ [] _ (.ofTokens (Token.tokenize b)) = y at ended ⊢
    cases ended with
    | ok result state => exact .program fun fuel s t hs ↦ s.run_respelled hf result fuel hs
    | error error state =>
      obtain ⟨bare, left, right⟩ := state
      have left := Cursor.getElem?_index left
      have right := Cursor.getElem?_index right
      rw [← Cursor.index_bare bare length] at right
      exact .refused error left right (Token.folded_eq_of_getElem? folded left right)

theorem ignores_letterCase_hello :
    Token.Recased "Dim X: x = \"Aa\"\nDebug.Print x" "dim x: X = \"Aa\"\nDEBUG.print X" ∧
      (Token.tokenize "Dim X: x = \"Aa\"\nDebug.Print x").map
          (fun t ↦ (t.kind, t.line, t.start, t.stop)) =
        (Token.tokenize "dim x: X = \"Aa\"\nDEBUG.print X").map
          (fun t ↦ (t.kind, t.line, t.start, t.stop)) ∧
      SameFate "Dim X: x = \"Aa\"\nDebug.Print x" "dim x: X = \"Aa\"\nDEBUG.print X"
        (parse (Token.tokenize "Dim X: x = \"Aa\"\nDebug.Print x"))
        (parse (Token.tokenize "dim x: X = \"Aa\"\nDEBUG.print X")) := by
  have h : Token.Recased "Dim X: x = \"Aa\"\nDebug.Print x" "dim x: X = \"Aa\"\nDEBUG.print X" := by
    decide +kernel
  exact ⟨h, ignores_letterCase _ _ h⟩

end MiniBasic
