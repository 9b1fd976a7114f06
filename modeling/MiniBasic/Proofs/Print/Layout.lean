import MiniBasic.Proofs.Grammar.Bare
import MiniBasic.Proofs.Number.Display

/-!
# Writing tokens

`layout` writes a list of tokens as text, with blanks where they are wanted. Scanning the text gives
the tokens back: each is spelled like a token of its kind, and what is written behind it cannot be
taken for a part of it.
-/

namespace MiniBasic.Token

/-! ## Spelling -/

/-- A word that does not open a comment. -/
structure Word (w : String) : Prop where
  shape : ∃ c cs, w.toList = c :: cs ∧ isWordStart c = true ∧ ∀ d ∈ cs, isWordRest d = true
  notRemark : Text.sameWord w "rem" = false

/-- The texts of tokens of the given kind. -/
def Spelled : Kind → String → Prop
  | .identifier, text => Word text ∧ Kind.ofWord text = .identifier
  | .keyword k, text => Word text ∧ Kind.ofWord text = .keyword k
  | .number, text => ∃ ds fs ms, text.toList = ds ++ fs ++ ms ∧ Number.Numeral ds fs ∧ Mark ms
  | .text, text => '"' ∉ text.toList
  | .symbol s, text => text = s.spelling
  | .newline, text => text = "\n"
  | .unknown, _ | .eof, _ => False

theorem Word.spelled {w : String} (h : Word w) : Spelled (.ofWord w) w := by
  cases hk : Kind.ofWord w with
  | identifier => exact ⟨h, hk⟩
  | keyword k => exact ⟨h, hk⟩
  | _ =>
    have := isWord_ofWord w
    rw [hk] at this
    cases this

theorem take_symbol? {c : Char} {cs : List Char} {s : Symbol} {n : Nat}
    (h : symbol? c cs.head? = some (s, n)) : String.ofList (c :: cs.take n) = s.spelling := by
  have head {d : Char} (hd : cs.head? = some d) : cs.take 1 = [d] := by
    cases cs with
    | nil => cases hd
    | cons c cs => exact congrArg (fun d ↦ [d]) (Option.some.inj hd)
  unfold symbol? at h
  split at h
  case h_1 =>
    split at h
    case isTrue hd =>
      cases h
      rw [head hd]
      rfl
    split at h
    case isTrue hd =>
      cases h
      rw [head hd]
      rfl
    case isFalse =>
      cases h
      rfl
  case h_2 =>
    split at h
    case isTrue hd =>
      cases h
      rw [head hd]
      rfl
    case isFalse =>
      cases h
      rfl
  all_goals
    cases h
    try rfl

/-- A piece is spelled as its kind says. -/
theorem Piece.spelled {c : Char} {cs : List Char} {kind : Kind} {n : Nat}
    (h : Piece c cs (some kind) n) (known : kind ≠ .unknown) :
    Spelled kind (pieceText kind c cs n) := by
  generalize hk : some kind = k at h
  cases h with
  | blank => cases hk
  | comment => cases hk
  | remark => cases hk
  | newline h =>
    cases hk
    subst h
    rfl
  | text h =>
    cases hk
    intro quote
    simp only [pieceText, String.toList_ofList] at quote
    exact absurd (List.mem_takeWhile_imp quote) (by decide)
  | number h =>
    cases hk
    obtain ⟨ds, fs, ms, parts, hds, hfs, hms⟩ := exists_numberExtent cs
    refine ⟨c :: ds, fs, ms, ?_, ⟨nofun, ?_, hfs⟩, hms⟩
    · rw [pieceText_of_ne (by decide : Kind.number ≠ .text), String.toList_ofList, parts]
      rfl
    · rintro d (_ | ⟨_, hd⟩)
      · exact h
      · exact hds d hd
  | word h hw =>
    cases hk
    have notText : Kind.ofWord (wordAt c cs) ≠ .text := by
      intro text
      have := isWord_ofWord (wordAt c cs)
      rw [text] at this
      cases this
    rw [pieceText_of_ne notText]
    refine Word.spelled ⟨⟨c, _, String.toList_ofList, h, fun d hd ↦ ?_⟩, hw⟩
    rw [take_length_takeWhile] at hd
    exact List.mem_takeWhile_imp hd
  | symbol h =>
    cases hk
    exact take_symbol? h
  | unknown h =>
    cases hk
    exact absurd rfl known

/-- The tokens of a source text are spelled as their kinds say. -/
theorem spelled_of_mem_tokenize {source : String} {t : Token} (h : t ∈ tokenize source)
    (known : t.kind ≠ .unknown) (inside : t.kind ≠ .eof) : Spelled t.kind t.text := by
  obtain ⟨line, offset, c, cs, ht⟩ := eq_pieceToken?_of_mem_scan h inside
  obtain ⟨kind, hkind, rfl⟩ := Option.map_eq_some_iff.mp ht
  exact Piece.spelled (hkind ▸ piece_classify c cs) known

/-! ## Writing -/

/-- The token as it stands in a source text. -/
def written (t : Token) : List Char :=
  match t.kind with
  | .text => '"' :: t.text.toList ++ ['"']
  | _ => t.text.toList

/-- Whether `c` behind a token of the given kind cannot belong to it. -/
def endsBefore (c : Char) : Kind → Bool
  | .identifier | .keyword _ => !isWordRest c
  | .number => !(c.isDigit || c == '.' || isTypeMark c)
  | .symbol .lt => !(c == '>' || c == '=')
  | .symbol .gt => !(c == '=')
  | _ => true

/-- What `w` is scanned as in front of `cs`: one piece, a token of the given kind and text. -/
def Scans (kind : Kind) (text : String) (w cs : List Char) : Prop :=
  ∃ c ds, w = c :: ds ∧ classify c (ds ++ cs) = (some kind, ds.length) ∧
    pieceText kind c (ds ++ cs) ds.length = text

theorem takeWhile_append {p : Char → Bool} {ds cs : List Char} (hds : ∀ d ∈ ds, p d = true)
    (hcs : ∀ c ∈ cs.head?, p c = false) : (ds ++ cs).takeWhile p = ds := by
  rw [List.takeWhile_append_of_pos hds]
  cases cs with
  | nil => simp
  | cons c cs => simp [hcs c rfl]

theorem beq_eq_false_of_class {p : Char → Bool} {c d : Char} (hc : p c = true) (hd : p d = false) :
    (c == d) = false := by
  rw [beq_eq_false_iff_ne]
  rintro rfl
  rw [hc] at hd
  cases hd

/-- The first tests of `classify` fail for the characters of a class without blanks, quotes and line
ends. -/
theorem classify_class {p : Char → Bool} {c : Char} (hc : p c = true)
    (hp : [' ', '\t', '\r', '\x27', '\n', '"'].all (!p ·) = true) (cs : List Char) :
    classify c cs =
      if c.isDigit then (some .number, numberExtent cs)
      else if isWordStart c then
        let n := (cs.takeWhile isWordRest).length
        let word := String.ofList (c :: cs.take n)
        if Text.sameWord word "rem" then (none, n + lineExtent (cs.drop n))
        else (some (.ofWord word), n)
      else
        match symbol? c cs.head? with
        | some (s, n) => (some (.symbol s), n)
        | none => (some .unknown, 0) := by
  have other {d : Char} (hd : d ∈ [' ', '\t', '\r', '\x27', '\n', '"']) : (c == d) = false := by
    have := List.all_eq_true.mp hp d hd
    exact beq_eq_false_of_class hc (by simpa using this)
  have blank : isBlank c = false := by
    simp only [isBlank, other (d := ' ') (by decide), other (d := '\t') (by decide),
      other (d := '\r') (by decide), Bool.or_self]
  unfold classify
  rw [blank, other (d := '\x27') (by decide), other (d := '\n') (by decide), other (d := '"')
    (by decide)]
  rfl

theorem classify_isDigit {c : Char} (h : c.isDigit = true) (cs : List Char) :
    classify c cs = (some .number, numberExtent cs) := by
  rw [classify_class h (by decide), if_pos h]

theorem isDigit_of_isWordStart {c : Char} (h : isWordStart c = true) : c.isDigit = false := by
  rcases Bool.or_eq_true .. ▸ h with h | h
  · unfold Char.isAlpha Char.isUpper Char.isLower at h
    unfold Char.isDigit
    simp [UInt32.le_iff_toNat_le] at h ⊢
    omega
  · rw [eq_of_beq h]
    rfl

theorem isDigit_of_isTypeMark {c : Char} (h : isTypeMark c = true) : c.isDigit = false := by
  by_contra digit
  rw [Number.not_isTypeMark_of_isDigit (Bool.not_eq_false _ ▸ digit)] at h
  cases h

theorem classify_isWordStart {c : Char} (h : isWordStart c = true) (cs : List Char)
    (hw : Text.sameWord (wordAt c cs) "rem" = false) :
    classify c cs = (some (.ofWord (wordAt c cs)), (cs.takeWhile isWordRest).length) := by
  have digit := isDigit_of_isWordStart h
  rw [classify_class h (by decide), digit, h]
  dsimp only [wordAt] at hw ⊢
  rw [hw]
  rfl

/-! ## Scanning what is written -/

theorem Word.scans {w : String} (h : Word w) {cs : List Char}
    (hcs : ∀ c ∈ cs.head?, isWordRest c = false) :
    Scans (.ofWord w) w w.toList cs := by
  obtain ⟨⟨c, ds, hw, hc, hds⟩, notRemark⟩ := h
  have rest : (ds ++ cs).takeWhile isWordRest = ds := takeWhile_append hds hcs
  have word : wordAt c (ds ++ cs) = w := by
    rw [wordAt, rest, List.take_left, ← hw, String.ofList_toList]
  refine ⟨c, ds, hw, ?_, ?_⟩
  · rw [classify_isWordStart hc _ (word ▸ notRemark), word, rest]
  · have notText : Kind.ofWord w ≠ .text := by
      intro text
      have := isWord_ofWord w
      rw [text] at this
      cases this
    rw [pieceText_of_ne notText, List.take_left, ← hw, String.ofList_toList]

theorem numberExtent_numeral {ds fs ms cs : List Char} (hds : ∀ d ∈ ds, d.isDigit = true)
    (hfs : Fraction fs) (hms : Mark ms) (hcs : ∀ c ∈ cs.head?, endsBefore c .number = true) :
    numberExtent (ds ++ fs ++ ms ++ cs) = (ds ++ fs ++ ms).length := by
  have follow {c : Char} (hc : c ∈ cs.head?) :
      (c.isDigit = false ∧ (c == '.') = false) ∧ isTypeMark c = false := by
    simpa only [endsBefore, Bool.not_eq_true', Bool.or_eq_false_iff] using hcs c hc
  have marks {c : Char} (hc : c ∈ (ms ++ cs).head?) : c.isDigit = false ∧ (c == '.') = false := by
    cases hms with
    | none => exact (follow hc).1
    | mark hm =>
      obtain rfl := Option.some.inj hc
      exact ⟨isDigit_of_isTypeMark hm, beq_eq_false_of_class hm rfl⟩
  have point {c : Char} (hc : c ∈ (fs ++ (ms ++ cs)).head?) : c.isDigit = false := by
    cases hfs with
    | none => exact (marks hc).1
    | point =>
      obtain rfl := Option.some.inj hc
      rfl
  have whole : (ds ++ (fs ++ (ms ++ cs))).takeWhile Char.isDigit = ds :=
    takeWhile_append hds fun c hc ↦ point hc
  have fraction : fractionExtent (fs ++ (ms ++ cs)) = fs.length := by
    cases hfs with
    | none =>
      cases h : ms ++ cs with
      | nil => rfl
      | cons c rest => simp [fractionExtent, (marks (h ▸ rfl : c ∈ (ms ++ cs).head?)).2]
    | point hfs =>
      have : (_ ++ (ms ++ cs)).takeWhile Char.isDigit = _ := takeWhile_append hfs fun c hc ↦
          (marks hc).1
      simp [fractionExtent, this, Nat.add_comm]
  have mark : markExtent (ms ++ cs) = ms.length := by
    cases hms with
    | none =>
      cases cs with
      | nil => rfl
      | cons c rest => simp [markExtent, (follow rfl).2]
    | mark hm => simp [markExtent, hm]
  simp only [numberExtent, List.append_assoc, whole, List.drop_left, fraction,
    ← List.drop_drop, mark, List.length_append, Nat.add_assoc]

theorem scans_number {text : String} {ds fs ms : List Char} (htext : text.toList = ds ++ fs ++ ms)
    (h : Number.Numeral ds fs) (hms : Mark ms) {cs : List Char}
    (hcs : ∀ c ∈ cs.head?, endsBefore c .number = true) : Scans .number text text.toList cs := by
  obtain ⟨d, ds, rfl⟩ := List.exists_cons_of_ne_nil h.nonempty
  refine ⟨d, ds ++ fs ++ ms, htext, ?_, ?_⟩
  · rw [classify_isDigit (h.digits d (List.mem_cons_self ..)),
      numberExtent_numeral (fun d hd ↦ h.digits d (List.mem_cons_of_mem _ hd)) h.fraction hms hcs]
  · rw [pieceText_of_ne (by decide : Kind.number ≠ .text), List.take_left]
    exact (congrArg String.ofList htext.symm).trans String.ofList_toList

theorem scans_text {text : String} (h : '"' ∉ text.toList) (cs : List Char) :
    Scans .text text ('"' :: text.toList ++ ['"']) cs := by
  have inside : (text.toList ++ '"' :: cs).takeWhile (· != '"') = text.toList :=
    takeWhile_append (fun d hd ↦ bne_iff_ne.mpr fun quote ↦ h (quote ▸ hd)) (by simp)
  refine ⟨'"', text.toList ++ ['"'], rfl, ?_, ?_⟩
  · have : classify '"' (text.toList ++ ['"'] ++ cs) =
        (some .text, textExtent (text.toList ++ ['"'] ++ cs)) := rfl
    rw [this, textExtent, List.append_assoc, List.singleton_append, inside]
    simp
  · rw [pieceText, List.append_assoc, List.singleton_append, inside, String.ofList_toList]

theorem scans_symbol (s : Symbol) {cs : List Char}
    (hcs : ∀ c ∈ cs.head?, endsBefore c (.symbol s) = true) :
    Scans (.symbol s) s.spelling s.spelling.toList cs := by
  cases s with
  | lt =>
    have next {d : Char} (hd : endsBefore d (.symbol .lt) = false) : cs.head? ≠ some d := by
      intro head
      rw [hcs d head] at hd
      cases hd
    have symbol : symbol? '<' cs.head? = some (.lt, 0) := by
      rw [symbol?, if_neg (next rfl), if_neg (next rfl)]
    refine ⟨'<', [], String.toList_ofList, ?_, rfl⟩
    rw [List.nil_append, classify_class (p := (· == '<')) rfl (by decide), symbol]
    rfl
  | gt =>
    have next : cs.head? ≠ some '=' := by
      intro head
      exact absurd (hcs '=' head) (by decide)
    have symbol : symbol? '>' cs.head? = some (.gt, 0) := by
      rw [symbol?, if_neg next]
    refine ⟨'>', [], String.toList_ofList, ?_, rfl⟩
    rw [List.nil_append, classify_class (p := (· == '>')) rfl (by decide), symbol]
    rfl
  | notEq => exact ⟨'<', ['>'], String.toList_ofList, rfl, rfl⟩
  | ltEq => exact ⟨'<', ['='], String.toList_ofList, rfl, rfl⟩
  | gtEq => exact ⟨'>', ['='], String.toList_ofList, rfl, rfl⟩
  | _ => exact ⟨_, [], String.toList_ofList, rfl, rfl⟩

theorem scans_newline (cs : List Char) : Scans .newline "\n" "\n".toList cs :=
  ⟨'\n', [], String.toList_ofList, rfl, rfl⟩

/-- What is written scans as it was written, unless what follows can belong to it. -/
theorem Spelled.scans {t : Token} (h : Spelled t.kind t.text) {cs : List Char}
    (hcs : ∀ c ∈ cs.head?, endsBefore c t.kind = true) : Scans t.kind t.text t.written cs := by
  unfold written
  cases hk : t.kind with
  | identifier =>
    rw [hk] at h hcs
    have scans := h.1.scans fun c hc ↦ Bool.not_eq_true' _ ▸ hcs c hc
    rwa [h.2] at scans
  | keyword k =>
    rw [hk] at h hcs
    have scans := h.1.scans fun c hc ↦ Bool.not_eq_true' _ ▸ hcs c hc
    rwa [h.2] at scans
  | number =>
    rw [hk] at h hcs
    obtain ⟨ds, fs, ms, htext, hn, hms⟩ := h
    exact scans_number htext hn hms hcs
  | text =>
    rw [hk] at h
    exact scans_text h cs
  | symbol s =>
    rw [hk] at h hcs
    have := scans_symbol s hcs
    rwa [← show t.text = s.spelling from h] at this
  | newline =>
    rw [hk] at h
    rw [show t.text = "\n" from h]
    exact scans_newline cs
  | unknown =>
    rw [hk] at h
    exact h.elim
  | eof =>
    rw [hk] at h
    exact h.elim

/-- The first token of a text that begins with a written token. -/
theorem Scans.scan_append {kind : Kind} {text : String} {w cs : List Char}
    (h : Scans kind text w cs) (line offset : Nat) :
    ∃ line' stop,
      scan line offset (w ++ cs) = ⟨kind, text, line, offset, stop⟩ :: scan line' stop cs := by
  obtain ⟨c, ds, rfl, hclassify, htext⟩ := h
  refine ⟨line + (c :: ds).count '\n', offset + byteLength (c :: ds), ?_⟩
  rw [List.cons_append, scan_cons, pieceToken?, hclassify, Option.map_some, htext, List.take_left,
    List.drop_left]
  rfl

theorem Scans.head_not_blank {kind : Kind} {text : String} {w cs : List Char}
    (h : Scans kind text w cs) :
    ∃ c ds, w = c :: ds ∧ isBlank c = false := by
  obtain ⟨c, ds, rfl, hclassify, -⟩ := h
  refine ⟨c, ds, rfl, ?_⟩
  by_contra blank
  rw [classify, if_pos (Bool.not_eq_false _ ▸ blank)] at hclassify
  cases hclassify

theorem scan_blank (line offset : Nat) {c : Char} (hc : isBlank c = false) (cs : List Char) :
    scan line offset (' ' :: c :: cs) = scan line (offset + 1) (c :: cs) := by
  have : classify ' ' (c :: cs) = (none, 0) := by
    have : classify ' ' (c :: cs) = (none, ((c :: cs).takeWhile isBlank).length) := rfl
    rw [this, List.takeWhile_cons_of_neg (by simp [hc])]
    rfl
  rw [scan_cons, pieceToken?, this]
  rfl

/-! ## Layout -/

/-- Tokens without a blank behind them. -/
def leading : Kind → Bool
  | .newline | .symbol .leftParen | .symbol .dot => true
  | _ => false

/-- Tokens without a blank before them. -/
def trailing : Kind → Bool
  | .newline | .symbol .rightParen | .symbol .comma | .symbol .colon => true
  | _ => false

/-- Whether no blank stands between two tokens. A dot joins names, but would join a number too
closely; the parenthesis of a call follows the callee. -/
def glued (t u : Token) : Bool :=
  leading t.kind || trailing u.kind || (u.kind == .symbol .dot && t.kind != .number) ||
    (u.kind == .symbol .leftParen && (t.kind == .identifier || t.kind == .symbol .rightParen))

/-- What stands between a token and those behind it. -/
def gap (t : Token) : List Token → List Char
  | u :: _ => if glued t u then [] else [' ']
  | [] => []

/-- The tokens as text. -/
def layout : List Token → List Char
  | t :: ts => t.written ++ gap t ts ++ layout ts
  | [] => []

/-- Blanks, line ends and punctuation other than the dot end every token. -/
theorem endsBefore_of_mem {c : Char} (hc : c ∈ [' ', '\n', '(', ')', ',', ':']) (kind : Kind) :
    endsBefore c kind = true := by
  have all : [' ', '\n', '(', ')', ',', ':'].all (endsBefore · kind) = true := by
    cases kind with
    | symbol s => cases s <;> decide
    | _ => rfl
  exact List.all_eq_true.mp all c hc

theorem endsBefore_of_leading {kind : Kind} (h : leading kind = true) (c : Char) :
    endsBefore c kind = true := by
  cases kind with
  | newline => rfl
  | symbol s =>
    cases s with
    | leftParen => rfl
    | dot => rfl
    | _ => cases h
  | _ => cases h

theorem head_written {u : Token} {s : Symbol} (hs : u.kind = .symbol s)
    (hu : Spelled u.kind u.text) :
    u.written.head? = s.spelling.toList.head? := by
  rw [hs] at hu
  rw [written, hs, show u.text = s.spelling from hu]

/-- A token without a blank before it starts with a character that ends every token. -/
theorem head_of_trailing {u : Token} (h : trailing u.kind = true) (hu : Spelled u.kind u.text)
    {c : Char} (hc : c ∈ u.written.head?) : c ∈ [' ', '\n', '(', ')', ',', ':'] := by
  cases hk : u.kind with
  | newline =>
    rw [hk] at hu
    rw [written, hk, show u.text = "\n" from hu] at hc
    obtain rfl := Option.some.inj hc
    decide
  | symbol s =>
    rw [head_written hk hu] at hc
    rw [hk] at h
    cases s with
    | rightParen => obtain rfl := Option.some.inj hc; decide
    | comma => obtain rfl := Option.some.inj hc; decide
    | colon => obtain rfl := Option.some.inj hc; decide
    | _ => cases h
  | _ =>
    rw [hk] at h
    cases h

/-- Where no blank stands, none is needed. -/
theorem endsBefore_of_glued {t u : Token} (h : glued t u = true) (hu : Spelled u.kind u.text)
    {c : Char} (hc : c ∈ u.written.head?) : endsBefore c t.kind = true := by
  simp only [glued, Bool.or_eq_true, Bool.and_eq_true, beq_iff_eq, bne_iff_ne] at h
  rcases h with ((h | h) | ⟨dot, number⟩) | ⟨paren, -⟩
  · exact endsBefore_of_leading h c
  · exact endsBefore_of_mem (head_of_trailing h hu hc) t.kind
  · rw [head_written dot hu] at hc
    obtain rfl := Option.some.inj hc
    cases hk : t.kind with
    | number => exact absurd hk number
    | symbol s => cases s <;> rfl
    | _ => rfl
  · rw [head_written paren hu] at hc
    obtain rfl := Option.some.inj hc
    exact endsBefore_of_mem (by decide) t.kind

/-- Behind a token stands a blank with a token behind it, or something that cannot belong to it. -/
theorem gap_cases (t : Token) {ts : List Token} (h : ∀ t ∈ ts, Spelled t.kind t.text) :
    (gap t ts = [' '] ∧ ∃ c cs, layout ts = c :: cs ∧ isBlank c = false) ∨
      (gap t ts = [] ∧ ∀ c ∈ (layout ts).head?, endsBefore c t.kind = true) := by
  cases ts with
  | nil => exact .inr ⟨rfl, nofun⟩
  | cons u us =>
    have hu := h u (List.mem_cons_self ..)
    obtain ⟨c, cs, hw, hc⟩ := (@Spelled.scans u hu [] nofun).head_not_blank
    have first : layout (u :: us) = c :: (cs ++ gap u us ++ layout us) := by
      rw [layout, hw]
      rfl
    rw [gap, first]
    split
    case isTrue glued =>
      refine .inr ⟨rfl, fun d hd ↦ endsBefore_of_glued glued hu ?_⟩
      rw [hw]
      exact hd
    case isFalse => exact .inl ⟨rfl, c, _, rfl, hc⟩

/-- Scanning written tokens gives them back. -/
theorem bare_scan_layout {ts : List Token} (h : ∀ t ∈ ts, Spelled t.kind t.text)
    (line offset : Nat) :
    (scan line offset (layout ts)).map (bare id) = ts.map (bare id) ++ [⟨.eof, "", 0, 0, 0⟩] := by
  induction ts generalizing line offset with
  | nil =>
    rw [layout, scan_nil]
    rfl
  | cons t ts ih =>
    have ht := h t (List.mem_cons_self ..)
    have hts := fun t ht ↦ h t (List.mem_cons_of_mem _ ht)
    rw [layout, List.append_assoc]
    rcases gap_cases t hts with ⟨gap, c, cs, behind, hc⟩ | ⟨gap, follow⟩
    · have follow (c : Char) (hc : c ∈ (' ' :: layout ts).head?) : endsBefore c t.kind = true := by
        obtain rfl := Option.some.inj hc
        exact endsBefore_of_mem (by decide) t.kind
      obtain ⟨line', stop, first⟩ := (ht.scans follow).scan_append line offset
      rw [gap, List.singleton_append, first, behind, scan_blank line' stop hc, ← behind,
        List.map_cons, ih hts]
      rfl
    · obtain ⟨line', stop, first⟩ := (ht.scans follow).scan_append line offset
      rw [gap, List.nil_append, first, List.map_cons, ih hts]
      rfl

end MiniBasic.Token
