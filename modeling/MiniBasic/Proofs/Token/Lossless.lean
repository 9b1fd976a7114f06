import Mathlib.Data.String.Basic
import MiniBasic.Proofs.Token.Piece

/-!
# No character is lost

The tokens of a source text, with the gaps between them, are the text. A token says where it stands,
and there stands what it was made from; a gap holds blanks and comments only. `Covers` follows the
scan along the characters, and `Lossless` says the same about the places that the tokens name.
-/

namespace MiniBasic.Token

/-! ## Gaps -/

/-- A comment, as far as its line goes: an apostrophe or the word `Rem`, and what follows. -/
inductive Comment : List Char → Prop
  | apostrophe {cs : List Char} (line : '\n' ∉ cs) : Comment ('\x27' :: cs)
  | remark {word : String} {cs : List Char} (rem : Text.sameWord word "rem" = true)
      (whole : ∀ c ∈ cs.head?, isWordRest c = false) (line : '\n' ∉ cs) :
      Comment (word.toList ++ cs)

/-- What may be left out before the text `behind`: blanks, and comments that stop at the end of
their line or at the end of the text. -/
inductive Gap (behind : List Char) : List Char → Prop
  | nil : Gap behind []
  | blank {c : Char} {g : List Char} (h : isBlank c = true) (more : Gap behind g) :
    Gap behind (c :: g)
  | comment {w g : List Char} (h : Comment w) (stops : ∀ c ∈ (g ++ behind).head?, c = '\n')
      (more : Gap behind g) : Gap behind (w ++ g)

theorem Gap.blanks {behind g bs : List Char} (h : ∀ c ∈ bs, isBlank c = true)
    (more : Gap behind g) :
    Gap behind (bs ++ g) := by
  induction bs with
  | nil => exact more
  | cons b bs ih =>
    rw [List.forall_mem_cons] at h
    exact .blank h.1 (ih h.2)

theorem drop_length_takeWhile (p : Char → Bool) (cs : List Char) :
    cs.drop (cs.takeWhile p).length = cs.dropWhile p := by
  calc
    cs.drop (cs.takeWhile p).length =
        (cs.takeWhile p ++ cs.dropWhile p).drop (cs.takeWhile p).length := by
      rw [List.takeWhile_append_dropWhile]
    _ = cs.dropWhile p := List.drop_left

/-- Behind the leading characters of a class stands none of the class. -/
theorem head?_drop_takeWhile {p : Char → Bool} {cs : List Char} {c : Char}
    (h : c ∈ (cs.drop (cs.takeWhile p).length).head?) : p c = false := by
  have stopped := List.head?_dropWhile_not p cs
  rw [drop_length_takeWhile] at h
  rw [Option.mem_def.mp h] at stopped
  exact stopped

theorem newline_not_mem_take_lineExtent (cs : List Char) : '\n' ∉ cs.take (lineExtent cs) := by
  intro h
  rw [lineExtent, take_length_takeWhile] at h
  exact absurd (List.mem_takeWhile_imp h) (by decide)

theorem head?_drop_lineExtent {cs : List Char} {c : Char}
    (h : c ∈ (cs.drop (lineExtent cs)).head?) :
    c = '\n' := by
  have stopped := head?_drop_takeWhile (p := (· != '\n')) h
  exact bne_eq_false_iff_eq.mp stopped

/-- Trivia in front of a gap makes a longer gap. -/
theorem Piece.gap {c : Char} {cs : List Char} {n : Nat} (h : Piece c cs none n)
    {behind g : List Char} (split : cs.drop n = g ++ behind) (more : Gap behind g) :
    Gap behind (c :: cs.take n ++ g) := by
  cases h with
  | blank h =>
    refine .blank h (.blanks (fun b hb ↦ ?_) more)
    rw [take_length_takeWhile] at hb
    exact List.mem_takeWhile_imp hb
  | comment h =>
    subst h
    refine .comment (.apostrophe (newline_not_mem_take_lineExtent cs)) (fun d hd ↦ ?_) more
    rw [← split] at hd
    exact head?_drop_lineExtent hd
  | remark h hw =>
    have word : c :: cs.take ((cs.takeWhile isWordRest).length +
        lineExtent (cs.drop (cs.takeWhile isWordRest).length)) = (wordAt c cs).toList ++
          (cs.drop (cs.takeWhile isWordRest).length).take
            (lineExtent (cs.drop (cs.takeWhile isWordRest).length)) := by
      rw [List.take_add, wordAt, String.toList_ofList, List.cons_append]
    rw [word]
    refine .comment (.remark hw (fun d hd ↦ ?_) (newline_not_mem_take_lineExtent _))
      (fun d hd ↦ ?_) more
    · rw [List.head?_take] at hd
      split at hd
      · cases hd
      · exact head?_drop_takeWhile hd
    · rw [← split, ← List.drop_drop] at hd
      exact head?_drop_lineExtent hd

/-! ## The tokens along the characters -/

/-- The characters `w`, before `rest`, are what the token `t` was made from: its text, and for a
string literal the quotes around it. The closing quote is missing only at the end of the text. -/
structure Lexeme (t : Token) (w rest : List Char) : Prop where
  inner : t.kind ≠ .eof
  nonempty : w ≠ []
  plain : t.kind ≠ .text → w = t.text.toList
  quoted : t.kind = .text →
    w = '"' :: (t.text.toList ++ ['"']) ∨ w = '"' :: t.text.toList ∧ rest = []

/-- From the given byte offset on, the characters are the tokens with gaps before them. -/
inductive Covers : Nat → List Char → List Token → Prop
  | eof {offset line : Nat} {g : List Char} (gap : Gap [] g) :
    Covers offset g [⟨.eof, "", line, offset + byteLength g, offset + byteLength g⟩]
  | token {offset : Nat} {g w rest : List Char} {t : Token} {ts : List Token}
      (gap : Gap (w ++ rest) g) (start : t.start = offset + byteLength g)
      (stop : t.stop = t.start + byteLength w) (lexeme : Lexeme t w rest)
      (more : Covers t.stop rest ts) :
    Covers offset (g ++ (w ++ rest)) (t :: ts)

/-- Trivia belongs to the gap before the first token. -/
theorem Covers.trivia {offset : Nat} {p cs : List Char} {ts : List Token}
    (h : Covers (offset + byteLength p) cs ts)
    (longer : ∀ behind g, cs = g ++ behind → Gap behind g → Gap behind (p ++ g)) :
    Covers offset (p ++ cs) ts := by
  cases h with
  | eof gap =>
    have whole := longer [] cs (List.append_nil cs).symm gap
    rw [Nat.add_assoc, ← byteLength_append]
    exact .eof whole
  | @token _ g w rest t ts gap start stop lexeme more =>
    rw [Nat.add_assoc, ← byteLength_append] at start
    rw [← List.append_assoc]
    exact .token (longer _ g rfl gap) start stop lexeme more

/-- Behind its opening quote, a string literal is closed, or it runs to the end of the text. -/
theorem textExtent_cases (cs : List Char) :
    (∃ body rest, cs = body ++ '"' :: rest ∧ cs.takeWhile (· != '"') = body ∧
        textExtent cs = body.length + 1) ∨
      cs.takeWhile (· != '"') = cs ∧ textExtent cs = cs.length := by
  have split : cs.takeWhile (· != '"') ++ cs.dropWhile (· != '"') = cs :=
    List.takeWhile_append_dropWhile
  have length := congrArg List.length split
  have stopped := List.head?_dropWhile_not (· != '"') cs
  unfold textExtent
  rw [List.length_append] at length
  cases behind : cs.dropWhile (· != '"') with
  | nil =>
    right
    rw [behind, List.append_nil] at split
    rw [behind, List.length_nil] at length
    exact ⟨split, by omega⟩
  | cons q rest =>
    left
    rw [behind] at split stopped length
    obtain rfl : q = '"' := bne_eq_false_iff_eq.mp stopped
    rw [List.length_cons] at length
    exact ⟨_, rest, split.symm, rfl, by omega⟩

theorem Piece.eq_quote {c : Char} {cs : List Char} {n : Nat} (h : Piece c cs (some .text) n) :
    c = '"' := by
  generalize hk : some Kind.text = k at h
  cases h with
  | text h => exact h
  | word =>
    have word := isWord_ofWord (wordAt c cs)
    rw [← Option.some.inj hk] at word
    cases word
  | _ => cases hk

theorem Piece.kind_ne_eof {c : Char} {cs : List Char} {kind : Kind} {n : Nat}
    (h : Piece c cs (some kind) n) : kind ≠ .eof := by
  intro hk
  generalize hs : some kind = k at h
  subst hk
  cases h with
  | word =>
    have word := isWord_ofWord (wordAt c cs)
    rw [← Option.some.inj hs] at word
    cases word
  | _ => cases hs

/-- A token stands where its text stands. -/
theorem Piece.lexeme {c : Char} {cs : List Char} {kind : Kind} {n : Nat}
    (h : Piece c cs (some kind) n) (line start stop : Nat) :
    Lexeme ⟨kind, pieceText kind c cs n, line, start, stop⟩ (c :: cs.take n) (cs.drop n) where
  inner := h.kind_ne_eof
  nonempty := List.cons_ne_nil _ _
  plain := by
    intro hk
    rw [pieceText_of_ne hk, String.toList_ofList]
  quoted := by
    intro hk
    obtain rfl : kind = .text := hk
    obtain rfl := h.eq_quote
    obtain rfl := h.eq_textExtent
    rw [pieceText, String.toList_ofList]
    rcases textExtent_cases cs with ⟨body, rest, split, inside, extent⟩ | ⟨whole, extent⟩
    · left
      rw [inside, extent, split, List.take_append, List.take_of_length_le (Nat.le_succ _),
        Nat.add_sub_cancel_left, List.take_succ_cons, List.take_zero]
    · right
      rw [whole, extent, List.take_length, List.drop_length]
      exact ⟨rfl, rfl⟩

theorem covers_scan (line offset : Nat) (cs : List Char) :
    Covers offset cs (scan line offset cs) := by
  induction cs using pieces_induct generalizing line offset with
  | nil =>
    rw [scan_nil]
    exact .eof .nil
  | cons c cs ih =>
    have piece := piece_classify c cs
    have whole : c :: cs = c :: cs.take (classify c cs).2 ++ cs.drop (classify c cs).2 := by
      rw [List.cons_append, List.take_append_drop]
    rw [scan_cons, pieceToken?]
    generalize classify c cs = found at piece whole ih ⊢
    obtain ⟨kind, n⟩ := found
    cases kind with
    | none =>
      rw [whole]
      exact (ih _ _).trivia fun behind g split more ↦ piece.gap split more
    | some kind =>
      rw [whole]
      exact .token (g := []) .nil rfl rfl (piece.lexeme _ _ _) (ih _ _)

/-! ## The places of tokens -/

/-- The part of a text between two byte offsets. -/
def slice (source : String) (start stop : Nat) : String :=
  String.Pos.Raw.extract source ⟨start⟩ ⟨stop⟩

/-- Where the last token ends; `offset` if there is none. -/
def endOf (offset : Nat) : List Token → Nat
  | [] => offset
  | t :: ts => endOf t.stop ts

/-- The gaps and tokens of a text in turn, from the given offset on. -/
def parts (source : String) (offset : Nat) : List Token → List String
  | [] => []
  | t :: ts => slice source offset t.start :: slice source t.start t.stop :: parts source t.stop ts

/-- The tokens name their places in the text, and nothing but blanks and comments stands
elsewhere. -/
structure Lossless (source : String) (tokens : List Token) : Prop where
  /-- The last token marks the end of the text. -/
  last : ∃ line, tokens.getLast? = some ⟨.eof, "", line, source.utf8ByteSize, source.utf8ByteSize⟩
  inner : ∀ t ∈ tokens.dropLast, t.kind ≠ .eof
  /-- Each token ends before the next one starts. -/
  ordered : tokens.Pairwise fun t u ↦ t.stop ≤ u.start
  nonempty : ∀ t ∈ tokens, t.kind ≠ .eof → t.start < t.stop
  /-- No token starts or ends inside a character or outside the text. -/
  boundary : ∀ t ∈ tokens, String.Pos.Raw.IsValid source ⟨t.start⟩ ∧
    String.Pos.Raw.IsValid source ⟨t.stop⟩
  plain : ∀ t ∈ tokens, t.kind ≠ .eof → t.kind ≠ .text → slice source t.start t.stop = t.text
  /-- The closing quote of a string literal may be missing at the end of the text only. -/
  quoted : ∀ t ∈ tokens, t.kind = .text →
    slice source t.start t.stop = "\"" ++ t.text ++ "\"" ∨
      slice source t.start t.stop = "\"" ++ t.text ∧ t.stop = source.utf8ByteSize
  gaps : ∀ before t after, tokens = before ++ t :: after →
    Gap (slice source t.start source.utf8ByteSize).toList
      (slice source (endOf 0 before) t.start).toList
  whole : String.join (parts source 0 tokens) = source

theorem byteLength_eq_utf8Len (cs : List Char) : byteLength cs = String.utf8Len cs := by
  induction cs with
  | nil => rfl
  | cons c cs ih => rw [byteLength_cons, String.utf8Len_cons, ih, Nat.add_comm]

theorem byteLength_toList (s : String) : byteLength s.toList = s.utf8ByteSize := by
  rw [byteLength_eq_utf8Len, String.utf8Len_toList]

theorem slice_eq {source : String} {l m r : List Char} (h : source.toList = l ++ m ++ r) :
    slice source (byteLength l) (byteLength l + byteLength m) = String.ofList m := by
  have split : source = String.ofList (l ++ m ++ r) := by rw [← h, String.ofList_toList]
  rw [slice, split, byteLength_eq_utf8Len, byteLength_eq_utf8Len]
  exact String.extract_of_valid l m r

theorem isValid_byteLength {source : String} {l r : List Char} (h : source.toList = l ++ r) :
    String.Pos.Raw.IsValid source ⟨byteLength l⟩ := by
  refine String.Pos.Raw.isValid_iff_exists_append.mpr ⟨String.ofList l, String.ofList r, ?_, ?_⟩
  · rw [← String.ofList_append, ← h, String.ofList_toList]
  · rw [String.rawEndPos_ofList, byteLength_eq_utf8Len]

theorem byteLength_pos {cs : List Char} (h : cs ≠ []) : 0 < byteLength cs := by
  cases cs with
  | nil => exact absurd rfl h
  | cons c cs => exact Nat.add_pos_left c.utf8Size_pos _

theorem byteLength_eq_zero_iff {cs : List Char} : byteLength cs = 0 ↔ cs = [] := by
  refine ⟨fun zero ↦ by_contra fun some ↦ (byteLength_pos some).ne' zero, ?_⟩
  rintro rfl
  rfl

/-- What stands at one of the tokens, and before and behind it. -/
theorem Covers.locate {offset : Nat} {cs : List Char} {before after : List Token} {t : Token}
    (h : Covers offset cs (before ++ t :: after)) :
    ∃ l g w rest, cs = l ++ (g ++ (w ++ rest)) ∧ endOf offset before = offset + byteLength l ∧
      t.start = offset + byteLength (l ++ g) ∧ t.stop = offset + byteLength (l ++ g ++ w) ∧
      Gap (w ++ rest) g ∧ (Lexeme t w rest ∨ t.kind = .eof ∧ w = [] ∧ rest = [] ∧ after = []) := by
  induction before generalizing offset cs with
  | nil =>
    rw [List.nil_append] at h
    cases h with
    | eof gap =>
      refine ⟨[], cs, [], [], ?_, rfl, rfl, ?_, gap, .inr ⟨rfl, rfl, rfl, rfl⟩⟩
      · rw [List.append_nil, List.append_nil, List.nil_append]
      · rw [List.append_nil, List.nil_append]
    | @token _ g w rest _ _ gap start stop lexeme more =>
      refine ⟨[], g, w, rest, rfl, rfl, start, ?_, gap, .inl lexeme⟩
      rw [stop, start, List.nil_append, byteLength_append, Nat.add_assoc]
  | cons b before ih =>
    generalize hts : b :: before ++ t :: after = ts at h
    cases h with
    | eof gap => simp at hts
    | @token _ g₀ w₀ rest₀ _ _ gap₀ start₀ stop₀ lexeme₀ more =>
      obtain ⟨rfl, rfl⟩ := List.cons.inj hts
      obtain ⟨l, g, w, rest, rfl, ended, start, stop, gap, found⟩ := ih more
      have moved (m : List Char) :
          b.stop + byteLength m = offset + byteLength (g₀ ++ (w₀ ++ m)) := by
        rw [stop₀, start₀, byteLength_append, byteLength_append]
        omega
      refine ⟨g₀ ++ (w₀ ++ l), g, w, rest, ?_, ended.trans (moved l), ?_, ?_, gap, found⟩
      · simp only [List.append_assoc]
      · rw [start, moved]
        simp only [List.append_assoc]
      · rw [stop, moved]
        simp only [List.append_assoc]

theorem Covers.le_start {offset : Nat} {cs : List Char} {ts : List Token} (h : Covers offset cs ts)
    {t : Token} (ht : t ∈ ts) : offset ≤ t.start := by
  obtain ⟨before, after, rfl⟩ := List.append_of_mem ht
  obtain ⟨l, g, w, rest, -, -, start, -⟩ := h.locate
  omega

theorem Covers.ordered {offset : Nat} {cs : List Char} {ts : List Token} (h : Covers offset cs ts) :
    ts.Pairwise fun t u ↦ t.stop ≤ u.start := by
  induction h with
  | eof gap => exact List.pairwise_singleton _ _
  | token gap start stop lexeme more ih =>
    exact List.pairwise_cons.mpr ⟨fun u hu ↦ more.le_start hu, ih⟩

theorem Covers.last {offset : Nat} {cs : List Char} {ts : List Token} (h : Covers offset cs ts) :
    (∃ line, ts.getLast? = some ⟨.eof, "", line, offset + byteLength cs, offset + byteLength cs⟩) ∧
      ∀ t ∈ ts.dropLast, t.kind ≠ .eof := by
  induction h with
  | @eof _ line _ gap => exact ⟨⟨line, rfl⟩, nofun⟩
  | @token offset g w rest t ts gap start stop lexeme more ih =>
    obtain ⟨⟨line, last⟩, inner⟩ := ih
    have rest_offset : t.stop + byteLength rest = offset + byteLength (g ++ (w ++ rest)) := by
      rw [stop, start, byteLength_append, byteLength_append]
      omega
    cases ts with
    | nil => cases last
    | cons u ts =>
      constructor
      · refine ⟨line, ?_⟩
        rw [← rest_offset, List.getLast?_cons_cons, last]
      · rw [List.dropLast_cons_cons]
        exact List.forall_mem_cons.mpr ⟨lexeme.inner, inner⟩

/-- Put together again, the gaps and tokens are the text. -/
theorem Covers.join_parts {source : String} {l cs : List Char} {ts : List Token} {offset : Nat}
    (h : Covers offset cs ts) (hl : offset = byteLength l) (split : source.toList = l ++ cs) :
    String.join (parts source offset ts) = String.ofList cs := by
  induction h generalizing l with
  | @eof _ _ g gap =>
    subst hl
    have atGap : slice source (byteLength l) (byteLength l + byteLength g) = String.ofList g :=
      slice_eq (r := []) (by rw [split, List.append_nil])
    have atEnd : slice source (byteLength l + byteLength g) (byteLength l + byteLength g) = "" := by
      rw [← byteLength_append]
      exact slice_eq (m := []) (r := []) (by rw [split, List.append_nil, List.append_nil])
    rw [parts, parts, String.join_cons, String.join_cons, String.join_nil, atGap, atEnd]
    simp only [String.append_empty]
  | @token offset g w rest t ts gap start stop lexeme more ih =>
    subst hl
    have atGap : slice source (byteLength l) t.start = String.ofList g := by
      rw [start]
      exact slice_eq (r := w ++ rest) (by rw [split, List.append_assoc])
    have atToken : slice source t.start t.stop = String.ofList w := by
      rw [stop, start, ← byteLength_append]
      exact slice_eq (r := rest) (by rw [split]; simp only [List.append_assoc])
    have behind : String.join (parts source t.stop ts) = String.ofList rest := by
      refine ih (l := l ++ g ++ w) ?_ ?_
      · rw [stop, start, byteLength_append, byteLength_append]
      · rw [split]
        simp only [List.append_assoc]
    rw [parts, String.join_cons, String.join_cons, atGap, atToken, behind, String.ofList_append,
      String.ofList_append]

theorem covers_tokenize (source : String) : Covers 0 source.toList (tokenize source) :=
  covers_scan 1 0 source.toList

/-- Where a token of a source text stands, and what stands there. -/
theorem exists_place {source : String} {t : Token} (ht : t ∈ tokenize source) :
    ∃ l w rest, source.toList = l ++ w ++ rest ∧ t.start = byteLength l ∧
      t.stop = byteLength l + byteLength w ∧ (t.kind ≠ .eof → Lexeme t w rest) := by
  have covers := covers_tokenize source
  obtain ⟨before, after, split⟩ := List.append_of_mem ht
  rw [split] at covers
  obtain ⟨l, g, w, rest, chars, -, start, stop, -, found⟩ := covers.locate
  rw [Nat.zero_add] at start stop
  rw [byteLength_append] at stop
  refine ⟨l ++ g, w, rest, ?_, start, stop, ?_⟩
  · rw [chars]
    simp only [List.append_assoc]
  · intro hk
    rcases found with lexeme | ⟨eof, -⟩
    · exact lexeme
    · exact absurd eof hk

/-- What stands before a token is a gap, in view of what stands behind it. -/
theorem Covers.gap_slice {source : String} {before after : List Token} {t : Token}
    (h : Covers 0 source.toList (before ++ t :: after)) :
    Gap (slice source t.start source.utf8ByteSize).toList
      (slice source (endOf 0 before) t.start).toList := by
  obtain ⟨l, g, w, rest, chars, ended, start, -, gap, -⟩ := h.locate
  rw [Nat.zero_add] at ended start
  have atGap : slice source (byteLength l) t.start = String.ofList g := by
    rw [start, byteLength_append]
    exact slice_eq (r := w ++ rest) (by rw [chars, List.append_assoc])
  have behind : slice source t.start source.utf8ByteSize = String.ofList (w ++ rest) := by
    rw [start, ← byteLength_toList, chars, ← List.append_assoc, byteLength_append (l ++ g)]
    exact slice_eq (r := []) (by rw [chars, List.append_nil, List.append_assoc])
  rw [ended, atGap, behind, String.toList_ofList, String.toList_ofList]
  exact gap

/-- Scanning loses nothing: the tokens of a source text stand in their order at the places they
name, from character to character, and are what stands there, up to the quotes of a string literal;
all between them is blanks and comments; and the one token that ends them marks the end of the
text. -/
theorem lossless_tokenize (source : String) : Lossless source (tokenize source) where
  last := by
    obtain ⟨last, -⟩ := (covers_tokenize source).last
    rwa [Nat.zero_add, byteLength_toList] at last
  inner := (covers_tokenize source).last.2
  ordered := (covers_tokenize source).ordered
  nonempty := by
    intro t ht hk
    obtain ⟨l, w, rest, -, start, stop, lexeme⟩ := exists_place ht
    have pos := byteLength_pos (lexeme hk).nonempty
    omega
  boundary := by
    intro t ht
    obtain ⟨l, w, rest, split, start, stop, -⟩ := exists_place ht
    constructor
    · rw [start]
      exact isValid_byteLength (r := w ++ rest) (by rw [split, List.append_assoc])
    · rw [stop, ← byteLength_append]
      exact isValid_byteLength split
  plain := by
    intro t ht hk plain
    obtain ⟨l, w, rest, split, start, stop, lexeme⟩ := exists_place ht
    rw [start, stop, slice_eq split, (lexeme hk).plain plain, String.ofList_toList]
  quoted := by
    intro t ht hk
    obtain ⟨l, w, rest, split, start, stop, lexeme⟩ := exists_place ht
    rw [start, stop, slice_eq split]
    rcases (lexeme (by rw [hk]; exact nofun)).quoted hk with closed | ⟨opened, atEnd⟩
    · left
      rw [closed, ← List.singleton_append, String.ofList_append, String.ofList_append,
        String.ofList_toList, ← String.append_assoc]
    · right
      subst atEnd
      constructor
      · rw [opened, ← List.singleton_append, String.ofList_append, String.ofList_toList]
      · rw [← byteLength_append, ← byteLength_toList, split, List.append_nil]
  gaps := by
    intro before t after split
    have covers := covers_tokenize source
    rw [split] at covers
    exact covers.gap_slice
  whole := by rw [(covers_tokenize source).join_parts (l := []) rfl rfl, String.ofList_toList]

end MiniBasic.Token
