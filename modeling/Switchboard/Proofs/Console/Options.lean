import Mathlib
import Switchboard.Console.Run

/-!
The options of the command line. A command line without a bare `--` is a list of pieces: words,
definitions in one of three forms, colour choices and calls for more logging. Pieces of
different kinds may stand in any order: what the program is told to do depends on the words, on
the operands of the definitions and on the last colour choice, each in their own order; without
a colour choice, output is coloured if it goes to a terminal. The three forms of a definition
say the same, with one exception. The joined form drops its own beginning as often as it is
there, so an operand that begins like the joined form itself is another operand there.
-/

namespace Switchboard.Text

theorem afterPrefix?_eq_none_iff {head text : List Char} :
    afterPrefix? head text = none ↔ ¬ head <+: text := by
  constructor
  · rintro hnone ⟨rest, rfl⟩
    rw [afterPrefix?_append] at hnone
    cases hnone
  · intro hhead
    rw [Option.eq_none_iff_forall_ne_some]
    intro rest hrest
    exact hhead ⟨rest, (eq_append_of_afterPrefix? hrest).symm⟩

theorem afterPrefixes_of_notHead {head text : List Char} (h : ¬ head <+: text)
    (bound : Nat) : afterPrefixes head bound text = text := by
  cases bound with
  | zero => rfl
  | succ bound => rw [afterPrefixes, afterPrefix?_eq_none_iff.mpr h]

theorem length_afterPrefixes_le (head : List Char) (bound : Nat) (text : List Char) :
    (afterPrefixes head bound text).length ≤ text.length := by
  induction bound generalizing text with
  | zero => exact Nat.le_refl _
  | succ bound ih =>
      rw [afterPrefixes]
      split
      · next rest hrest =>
          rw [eq_append_of_afterPrefix? hrest, List.length_append]
          exact (ih rest).trans (Nat.le_add_left _ _)
      · exact Nat.le_refl _

end Switchboard.Text

namespace Switchboard.Console

open Text

/-- How a definition is written: `--define X`, `-d X` or `--define=X`. -/
inductive DefineForm where
  | long
  | short
  | joined

/-- The beginning of the joined form. -/
def joinedHead : String := "--define="

def DefineForm.arguments (operand : String) : DefineForm → List String
  | long => ["--define", operand]
  | short => ["-d", operand]
  | joined => [joinedHead ++ operand]

/-- A piece of a command line. -/
inductive Piece where
  | word (text : String)
  | define (form : DefineForm) (operand : String)
  | color (on : Bool)
  | verbose (long : Bool)

namespace Piece

/-- The arguments that a piece is written as. -/
def arguments : Piece → List String
  | word text => [text]
  | define form operand => form.arguments operand
  | color on => [if on then "--color" else "--no-color"]
  | verbose long => [if long then "--verbose" else "-v"]

/-- A word has not the look of an option, and a definition gives a name that is not blank. -/
def Valid : Piece → Prop
  | word text => looksLikeOption text = false
  | define _ operand => (readDefine? operand).isSome = true
  | color _ => True
  | verbose _ => True

/-- No operand in the joined form begins like that form. -/
def Plain : Piece → Prop
  | define .joined operand => ¬ joinedHead.toList <+: operand.toList
  | _ => True

instance : (piece : Piece) → Decidable piece.Valid
  | word text => inferInstanceAs (Decidable (looksLikeOption text = false))
  | define _ operand => inferInstanceAs (Decidable ((readDefine? operand).isSome = true))
  | color _ => inferInstanceAs (Decidable True)
  | verbose _ => inferInstanceAs (Decidable True)

instance : (piece : Piece) → Decidable piece.Plain
  | define .joined operand =>
      inferInstanceAs (Decidable ¬ joinedHead.toList <+: operand.toList)
  | define .long _ => inferInstanceAs (Decidable True)
  | define .short _ => inferInstanceAs (Decidable True)
  | word _ => inferInstanceAs (Decidable True)
  | color _ => inferInstanceAs (Decidable True)
  | verbose _ => inferInstanceAs (Decidable True)

def word? : Piece → Option String
  | word text => some text
  | _ => none

def operand? : Piece → Option String
  | define _ operand => some operand
  | _ => none

def color? : Piece → Option Bool
  | color on => some on
  | _ => none

def isVerbose : Piece → Bool
  | verbose _ => true
  | _ => false

end Piece

/-- The command line that a list of pieces makes. -/
def commandLine (pieces : List Piece) : List String :=
  pieces.flatMap Piece.arguments

/-- The words of a command line. -/
def words (pieces : List Piece) : List String :=
  pieces.filterMap Piece.word?

/-- The operands of its definitions. -/
def operands (pieces : List Piece) : List String :=
  pieces.filterMap Piece.operand?

/-- Its last colour choice. -/
def lastColor? (pieces : List Piece) : Option Bool :=
  (pieces.filterMap Piece.color?).getLast?

/-- What has been read after these pieces. -/
def Scan.after (scan : Scan) (pieces : List Piece) : Scan where
  words := scan.words ++ Console.words pieces
  defines := scan.defines ++ (operands pieces).filterMap readDefine?
  color := (lastColor? pieces).getD scan.color
  verbose := scan.verbose || pieces.any Piece.isVerbose

/-- What has been read after one more piece. -/
def Scan.note (scan : Scan) : Piece → Scan
  | .word text => { scan with words := scan.words ++ [text] }
  | .define _ operand => { scan with defines := scan.defines ++ (readDefine? operand).toList }
  | .color on => { scan with color := on }
  | .verbose _ => { scan with verbose := true }

theorem Scan.after_singleton (scan : Scan) (piece : Piece) :
    scan.after [piece] = scan.note piece := by
  cases piece with
  | define form operand =>
      cases hoperand : readDefine? operand <;>
        simp [Scan.after, Scan.note, Console.words, operands, lastColor?, Piece.word?,
          Piece.operand?, Piece.color?, Piece.isVerbose, hoperand]
  | _ =>
      simp [Scan.after, Scan.note, Console.words, operands, lastColor?, Piece.word?,
        Piece.operand?, Piece.color?, Piece.isVerbose]

theorem Scan.after_nil (scan : Scan) : scan.after [] = scan := by
  simp [Scan.after, Console.words, operands, lastColor?]

theorem Scan.after_append (scan : Scan) (first second : List Piece) :
    (scan.after first).after second = scan.after (first ++ second) := by
  have hcolor : (lastColor? (first ++ second)).getD scan.color =
      (lastColor? second).getD ((lastColor? first).getD scan.color) := by
    rw [lastColor?, List.filterMap_append, List.getLast?_append, lastColor?, lastColor?]
    cases (second.filterMap Piece.color?).getLast? <;> rfl
  simp only [Scan.after, hcolor, Console.words, operands, List.filterMap_append, List.any_append,
    List.append_assoc, Bool.or_assoc]

/-! What a single argument is -/

/-- A text with two dashes in front is no number. -/
theorem read?_of_dashes {text : String} {rest : List Char}
    (h : text.toList = '-' :: '-' :: rest) : Number.read? text = none := by
  have hword {word : List Char} (hhead : word.head? ≠ some '-') :
      ('-' :: rest).map Char.toLower ≠ word := by
    rintro rfl
    exact hhead rfl
  rw [Number.read?, h]
  simp only
  rw [if_neg, if_neg (hword (by decide))]
  · rfl
  · rw [Bool.or_eq_true, decide_eq_true_eq, decide_eq_true_eq]
    exact not_or.mpr ⟨hword (by decide), hword (by decide)⟩

theorem looksLikeOption_of_dashes {text : String} {rest : List Char}
    (h : text.toList = '-' :: '-' :: rest) : looksLikeOption text = true := by
  rw [looksLikeOption, h]
  simp only
  rw [read?_of_dashes h]
  rfl

/-- The joined form starts with its own beginning. -/
theorem toList_of_joinedDefine? {argument operand : String}
    (h : joinedDefine? argument = some operand) :
    ∃ rest, argument.toList = joinedHead.toList ++ rest ∧
      operand = String.ofList (afterPrefixes joinedHead.toList rest.length rest) := by
  rw [joinedDefine?, Option.map_eq_some_iff] at h
  obtain ⟨rest, hrest, hoperand⟩ := h
  exact ⟨rest, eq_append_of_afterPrefix? hrest, hoperand.symm⟩

theorem joinedDefine?_append (operand : String) :
    joinedDefine? (joinedHead ++ operand) = some (String.ofList
      (afterPrefixes joinedHead.toList operand.toList.length operand.toList)) := by
  rw [joinedDefine?, String.toList_append]
  change (afterPrefix? joinedHead.toList (joinedHead.toList ++ operand.toList)).map _ = _
  rw [afterPrefix?_append]
  rfl

/-- A word is no joined definition. -/
theorem joinedDefine?_of_word {text : String} (h : looksLikeOption text = false) :
    joinedDefine? text = none := by
  rw [Option.eq_none_iff_forall_ne_some]
  intro operand hoperand
  obtain ⟨rest, htext, _⟩ := toList_of_joinedDefine? hoperand
  rw [looksLikeOption_of_dashes htext] at h
  cases h

/-- The arguments that are options by themselves. -/
def reserved : List String :=
  ["-h", "--help", "-V", "--version", "--color", "--no-color", "-v", "--verbose", "--define", "-d",
    "--"]

theorem notMem_reserved_of_word {text : String} (h : looksLikeOption text = false) :
    text ∉ reserved := by
  have hall : ∀ option ∈ reserved, looksLikeOption option = true := by decide
  intro hmem
  rw [hall text hmem] at h
  cases h

theorem notMem_reserved_of_joined {argument operand : String}
    (h : joinedDefine? argument = some operand) : argument ∉ reserved := by
  have hall : ∀ option ∈ reserved, joinedDefine? option = none := by decide
  intro hmem
  rw [hall argument hmem] at h
  cases h

/-- No bare `--` is among the arguments, and none repeats the beginning of the joined form. -/
structure Ordinary (arguments : List String) : Prop where
  bare : "--" ∉ arguments
  repeated : ∀ rest, joinedHead ++ (joinedHead ++ rest) ∉ arguments

theorem Ordinary.tail {argument : String} {rest : List String}
    (h : Ordinary (argument :: rest)) : Ordinary rest :=
  ⟨List.not_mem_of_not_mem_cons h.bare, fun tail => List.not_mem_of_not_mem_cons (h.repeated tail)⟩

/-! What reading does with one piece -/

namespace Scan

variable {scan next : Scan}

theorem define_of_readDefine? {operand : String} {pair : String × String}
    (h : readDefine? operand = some pair) :
    scan.define operand = .ok { scan with defines := scan.defines ++ [pair] } := by
  rw [define, h]

theorem read_word {text : String} (h : looksLikeOption text = false) (rest : List String) :
    scan.read (text :: rest) = Scan.read { scan with words := scan.words ++ [text] } rest := by
  have hreserved := notMem_reserved_of_word h
  simp only [reserved, List.mem_cons, List.not_mem_nil, or_false, not_or] at hreserved
  rw [read.eq_def]
  simp [hreserved, joinedDefine?_of_word h, h]

theorem read_joined {argument operand : String} (h : joinedDefine? argument = some operand)
    (rest : List String) :
    scan.read (argument :: rest) = (scan.define operand).bind fun next => next.read rest := by
  have hreserved := notMem_reserved_of_joined h
  simp only [reserved, List.mem_cons, List.not_mem_nil, or_false, not_or] at hreserved
  rw [read.eq_def]
  cases hdefine : scan.define operand <;> simp [hreserved, h, hdefine, Except.bind]

/-- Reading a definition in whatever form takes note of its operand. -/
theorem read_define {form : DefineForm} {operand : String}
    (hplain : (Piece.define form operand).Plain) (h : scan.define operand = .ok next)
    (rest : List String) : scan.read (form.arguments operand ++ rest) = next.read rest := by
  cases form with
  | long | short =>
      rw [read.eq_def]
      simp [DefineForm.arguments, h]
  | joined =>
      have hjoined : joinedDefine? (joinedHead ++ operand) = some operand := by
        rw [joinedDefine?_append, afterPrefixes_of_notHead hplain, String.ofList_toList]
      exact (read_joined hjoined rest).trans (by rw [h]; rfl)

theorem read_piece {piece : Piece} (hvalid : piece.Valid) (hplain : piece.Plain)
    (rest : List String) :
    scan.read (piece.arguments ++ rest) = (scan.after [piece]).read rest := by
  rw [after_singleton]
  cases piece with
  | word text => exact read_word hvalid rest
  | define form operand =>
      obtain ⟨pair, hpair⟩ := Option.isSome_iff_exists.mp hvalid
      rw [note, hpair]
      exact read_define hplain (define_of_readDefine? hpair) rest
  | color on =>
      rw [read.eq_def]
      cases on <;> simp [Piece.arguments, note]
  | verbose long =>
      rw [read.eq_def]
      cases long <;> simp [Piece.arguments, note]

/-- Pieces are read one after the other. -/
theorem read_commandLine {pieces : List Piece}
    (h : ∀ piece ∈ pieces, piece.Valid ∧ piece.Plain) (rest : List String) :
    scan.read (commandLine pieces ++ rest) = (scan.after pieces).read rest := by
  induction pieces generalizing scan with
  | nil => rw [after_nil]; rfl
  | cons piece pieces ih =>
      rw [List.forall_mem_cons] at h
      rw [commandLine, List.flatMap_cons, List.append_assoc, read_piece h.1.1 h.1.2]
      change (scan.after [piece]).read _ = (scan.after ([piece] ++ pieces)).read rest
      rw [← after_append]
      exact ih h.2

theorem read_pieces {pieces : List Piece} (h : ∀ piece ∈ pieces, piece.Valid ∧ piece.Plain) :
    scan.read (commandLine pieces) = .ok (scan.after pieces) := by
  have hread : scan.read (commandLine pieces ++ []) = _ := read_commandLine h []
  rwa [List.append_nil] at hread

/-- An argument in the joined form that does not repeat its beginning has the text behind the
beginning for its operand. -/
theorem eq_append_of_joinedDefine? {argument operand : String}
    (h : joinedDefine? argument = some operand)
    (hplain : ∀ rest, argument ≠ joinedHead ++ (joinedHead ++ rest)) :
    argument = joinedHead ++ operand ∧ ¬ joinedHead.toList <+: operand.toList := by
  obtain ⟨rest, hargument, hoperand⟩ := toList_of_joinedDefine? h
  have hrest : ¬ joinedHead.toList <+: rest := by
    rintro ⟨tail, rfl⟩
    apply hplain (String.ofList tail)
    apply String.toList_inj.mp
    rw [hargument, String.toList_append, String.toList_append, String.toList_ofList]
  rw [afterPrefixes_of_notHead hrest] at hoperand
  subst hoperand
  refine ⟨String.toList_inj.mp ?_, ?_⟩
  · rw [hargument, String.toList_append, String.toList_ofList]
  · rwa [String.toList_ofList]

/-- An ordinary command line that can be followed is made of pieces. -/
theorem exists_pieces {result : Scan} {arguments : List String}
    (h : scan.read arguments = .ok result) (hordinary : Ordinary arguments) :
    ∃ pieces, (∀ piece ∈ pieces, piece.Valid ∧ piece.Plain) ∧
      arguments = commandLine pieces := by
  have hcons (piece : Piece) (hpiece : piece.Valid ∧ piece.Plain) {rest : List String}
      (hrest : ∃ pieces, (∀ piece ∈ pieces, piece.Valid ∧ piece.Plain) ∧
        rest = commandLine pieces) :
      ∃ pieces, (∀ piece ∈ pieces, piece.Valid ∧ piece.Plain) ∧
        piece.arguments ++ rest = commandLine pieces := by
    obtain ⟨pieces, hpieces, rfl⟩ := hrest
    exact ⟨piece :: pieces, List.forall_mem_cons.mpr ⟨hpiece, hpieces⟩, rfl⟩
  have hvalid {scan next : Scan} {operand : String} (hdefine : scan.define operand = .ok next) :
      (readDefine? operand).isSome = true := by
    rw [Scan.define] at hdefine
    split at hdefine
    · next hread => rw [hread]; rfl
    · cases hdefine
  -- The cases in which reading stops are those of an error and of a bare `--`.
  fun_induction Scan.read scan arguments
  case case1 => exact ⟨[], by simp, rfl⟩
  case case4 ih => exact hcons (.color true) ⟨trivial, trivial⟩ (ih h hordinary.tail)
  case case5 ih => exact hcons (.color false) ⟨trivial, trivial⟩ (ih h hordinary.tail)
  case case6 hverbose ih =>
    rw [Bool.or_eq_true, decide_eq_true_eq, decide_eq_true_eq] at hverbose
    rcases hverbose with rfl | rfl
    · exact hcons (.verbose false) ⟨trivial, trivial⟩ (ih h hordinary.tail)
    · exact hcons (.verbose true) ⟨trivial, trivial⟩ (ih h hordinary.tail)
  case case8 hoption operand _ _ hdefine ih =>
    rw [Bool.or_eq_true, decide_eq_true_eq, decide_eq_true_eq] at hoption
    rcases hoption with rfl | rfl
    · exact hcons (.define .long operand) ⟨hvalid hdefine, trivial⟩ (ih h hordinary.tail.tail)
    · exact hcons (.define .short operand) ⟨hvalid hdefine, trivial⟩ (ih h hordinary.tail.tail)
  case case10 => exact absurd List.mem_cons_self hordinary.bare
  case case11 operand hjoined _ hdefine ih =>
    obtain ⟨rfl, hplain⟩ := eq_append_of_joinedDefine? hjoined fun tail heq =>
      hordinary.repeated tail (heq ▸ List.mem_cons_self)
    exact hcons (.define .joined operand) ⟨hvalid hdefine, hplain⟩ (ih h hordinary.tail)
  case case14 argument _ _ _ _ _ _ _ _ _ hlooks ih =>
    exact hcons (.word argument) ⟨by simpa [Piece.Valid] using hlooks, trivial⟩
      (ih h hordinary.tail)
  all_goals cases h

end Scan

/-! What the program is told to do -/

/-- What a command line comes to. -/
structure Settings where
  command : Command
  defines : List (String × String)
  color : Bool
  verbose : Bool

/-- The settings of a command line, given the standard input and whether the output goes to a
terminal. -/
def configure (arguments : List String) (input : String) (terminal : Bool) :
    Except Stop Settings := do
  let (scan, order) ← readArguments arguments terminal
  let command ← (order.load input).mapError Stop.misuse
  return ⟨command, scan.defines, scan.color, scan.verbose⟩

/-- The settings that these words, operands and choices make. Without a colour choice the terminal
decides. -/
def settle (words operands : List String) (color? : Option Bool) (verbose : Bool)
    (input : String) (terminal : Bool) : Except Stop Settings := do
  let order ← (Order.ofWords words).mapError Stop.misuse
  let command ← (order.load input).mapError Stop.misuse
  return ⟨command, operands.filterMap readDefine?, color?.getD terminal, verbose⟩

/-- The reply to a command line depends on its settings. -/
theorem reply_eq (arguments : List String) (input : String) (terminal : Bool) :
    reply arguments input terminal =
      match configure arguments input terminal with
      | .error stop => stop.reply
      | .ok settings =>
          execute ⟨[], settings.defines, settings.color, settings.verbose⟩ settings.command := by
  rw [reply, configure]
  rcases readArguments arguments terminal with stop | ⟨scan, order⟩
  · rfl
  · simp only [bind, Except.bind]
    rcases order.load input with error | command <;> rfl

theorem configure_commandLine {pieces : List Piece}
    (h : ∀ piece ∈ pieces, piece.Valid ∧ piece.Plain) (input : String) (terminal : Bool) :
    configure (commandLine pieces) input terminal =
      settle (words pieces) (operands pieces) (lastColor? pieces) (pieces.any Piece.isVerbose)
        input terminal := by
  have hread : (Scan.start terminal).read (commandLine pieces) = _ := Scan.read_pieces h
  rw [configure, readArguments, hread]
  change (((Order.ofWords ([] ++ words pieces)).mapError Stop.misuse).bind _).bind _ = _
  rw [List.nil_append, settle]
  rcases Order.ofWords (words pieces) with error | order
  · rfl
  · change ((order.load input).mapError Stop.misuse).bind _ =
      ((order.load input).mapError Stop.misuse).bind _
    rcases order.load input with error | command <;> rfl

/-- The alias of a definition is the text behind the first equals sign. -/
theorem dropWhile_of_readDefine? {operand name aliasText : String}
    (h : readDefine? operand = some (name, aliasText)) :
    operand.toList.dropWhile (· != '=') = '=' :: aliasText.toList := by
  rw [readDefine?] at h
  simp only at h
  split at h
  · cases h
  · next equals rest hdrop =>
      have hequals : equals = '=' := by
        have hhead := List.head?_dropWhile_not (· != '=') operand.toList
        rw [hdrop] at hhead
        simpa using hhead
      split at h
      · cases h
      · cases h
        rw [hdrop, hequals, String.toList_ofList]

/-- In the joined form an operand that begins like that form defines something else, or
nothing. -/
theorem readDefine?_joined_ne {operand : String} (hvalid : (readDefine? operand).isSome = true)
    (h : joinedHead.toList <+: operand.toList) :
    readDefine? (String.ofList (afterPrefixes joinedHead.toList operand.toList.length
      operand.toList)) ≠ readDefine? operand := by
  obtain ⟨⟨name, aliasText⟩, hread⟩ := Option.isSome_iff_exists.mp hvalid
  obtain ⟨rest, hrest⟩ := h
  have halias : aliasText.toList = rest := by
    have hdrop := dropWhile_of_readDefine? hread
    rw [← hrest] at hdrop
    exact (List.cons.inj hdrop).2.symm
  have hlength : (afterPrefixes joinedHead.toList operand.toList.length operand.toList).length ≤
      rest.length := by
    rw [← hrest, List.length_append, Nat.add_comm]
    change (afterPrefixes _ (rest.length + 8 + 1) _).length ≤ _
    rw [afterPrefixes, afterPrefix?_append]
    exact length_afterPrefixes_le _ _ _
  rw [hread]
  intro hjoined
  have hdrop := congrArg List.length (dropWhile_of_readDefine? hjoined)
  rw [String.toList_ofList, List.length_cons, halias] at hdrop
  have hshorter := (List.dropWhile_sublist (· != '=') (l := afterPrefixes joinedHead.toList
    operand.toList.length operand.toList)).length_le
  omega

/-- The settings that a command line of pieces makes do not change if a definition is written in
another form. -/
theorem configure_define {before : List Piece}
    (hbefore : ∀ piece ∈ before, piece.Valid ∧ piece.Plain) {operand : String}
    (hvalid : (readDefine? operand).isSome = true) {form form' : DefineForm}
    (hform : (Piece.define form operand).Plain) (hform' : (Piece.define form' operand).Plain)
    (after : List String) (input : String) (terminal : Bool) :
    configure (commandLine before ++ (form.arguments operand ++ after)) input terminal =
      configure (commandLine before ++ (form'.arguments operand ++ after)) input terminal := by
  obtain ⟨pair, hpair⟩ := Option.isSome_iff_exists.mp hvalid
  have hdefine : ((Scan.start terminal).after before).define operand = _ :=
    Scan.define_of_readDefine? hpair
  have hread {form : DefineForm} (h : (Piece.define form operand).Plain) :=
    Scan.read_define h hdefine after
  rw [configure, configure, readArguments, readArguments, Scan.read_commandLine hbefore,
    Scan.read_commandLine hbefore, hread hform, hread hform']

/-- An operand that begins like the joined form says something else in it than in the other
forms. -/
theorem configure_joined_ne {operand : String} (hvalid : (readDefine? operand).isSome = true)
    (h : joinedHead.toList <+: operand.toList) (input : String) (terminal : Bool) :
    configure (DefineForm.joined.arguments operand ++ ["explain", "any"]) input terminal ≠
      configure (DefineForm.long.arguments operand ++ ["explain", "any"]) input terminal := by
  have hlong {operand : String} (hvalid : (readDefine? operand).isSome = true) :
      configure (DefineForm.long.arguments operand ++ ["explain", "any"]) input terminal =
        .ok ⟨.explain "any", [operand].filterMap readDefine?, terminal, false⟩ := by
    have hdefine : (Piece.define .long operand).Valid ∧ (Piece.define .long operand).Plain :=
      ⟨hvalid, trivial⟩
    have hpieces : ∀ piece ∈ [Piece.define .long operand, .word "explain", .word "any"],
        piece.Valid ∧ piece.Plain :=
      List.forall_mem_cons.mpr ⟨hdefine, by decide⟩
    exact configure_commandLine hpieces input terminal
  rw [hlong hvalid]
  have hjoined : (Scan.start terminal).read
      (DefineForm.joined.arguments operand ++ ["explain", "any"]) = _ :=
    Scan.read_joined (joinedDefine?_append operand) ["explain", "any"]
  have hne := readDefine?_joined_ne hvalid h
  generalize String.ofList (afterPrefixes joinedHead.toList operand.toList.length
    operand.toList) = other at hjoined hne
  intro heq
  cases hread : readDefine? other with
  | none =>
      rw [Scan.define, hread] at hjoined
      rw [configure, readArguments, hjoined] at heq
      cases heq
  | some pair =>
      have hplain : (Piece.define .long other).Plain := trivial
      have hdefine : ((Scan.start terminal).define other).bind
            (fun next => next.read ["explain", "any"]) =
          (Scan.start terminal).read
            (DefineForm.long.arguments other ++ ["explain", "any"]) := by
        rw [Scan.read_define hplain (Scan.define_of_readDefine? hread),
          Scan.define_of_readDefine? hread]
        rfl
      rw [configure, readArguments, hjoined, hdefine, ← readArguments, ← configure,
        hlong (by rw [hread]; rfl)] at heq
      obtain ⟨pair', hpair'⟩ := Option.isSome_iff_exists.mp hvalid
      have hpair : pair = pair' := by simpa [hread, hpair'] using heq
      exact hne (by rw [hread, hpair', hpair])

/-- The options of a command line may be placed and spelled freely, as long as no operand in the
joined form begins like that form. A command line of pieces, of which each is as it should be,
comes to the settings that its words, the operands of its definitions and its last colour choice
make, each in their own order, in a terminal and elsewhere; only whether more is logged depends
on another piece. A definition may be written in any form, whatever stands after it; but an
operand that begins like the joined form never means the same there. And every command line that
can be followed, has no bare `--` and does not repeat the beginning of the joined form is one of
pieces. -/
theorem options_placed_freely (input : String) (terminal : Bool) :
    (∀ pieces, (∀ piece ∈ pieces, piece.Valid ∧ piece.Plain) →
      configure (commandLine pieces) input terminal =
        settle (words pieces) (operands pieces) (lastColor? pieces)
          (pieces.any Piece.isVerbose) input terminal) ∧
    (∀ pieces pieces', (∀ piece ∈ pieces, piece.Valid ∧ piece.Plain) →
      (∀ piece ∈ pieces', piece.Valid ∧ piece.Plain) → words pieces = words pieces' →
      operands pieces = operands pieces' → lastColor? pieces = lastColor? pieces' →
        (configure (commandLine pieces) input terminal).map
            (fun settings => (settings.command, settings.defines, settings.color)) =
          (configure (commandLine pieces') input terminal).map
            (fun settings => (settings.command, settings.defines, settings.color))) ∧
    (∀ operand, (readDefine? operand).isSome = true →
      (∀ before, (∀ piece ∈ before, piece.Valid ∧ piece.Plain) → ∀ form form',
        (Piece.define form operand).Plain → (Piece.define form' operand).Plain → ∀ after,
          configure (commandLine before ++ (form.arguments operand ++ after)) input terminal =
            configure (commandLine before ++ (form'.arguments operand ++ after)) input
              terminal) ∧
      (joinedHead.toList <+: operand.toList →
        configure (DefineForm.joined.arguments operand ++ ["explain", "any"]) input terminal ≠
          configure (DefineForm.long.arguments operand ++ ["explain", "any"]) input
            terminal)) ∧
    ∀ arguments, Ordinary arguments →
      ((∃ scan, (Scan.start terminal).read arguments = .ok scan) ↔
        ∃ pieces, (∀ piece ∈ pieces, piece.Valid ∧ piece.Plain) ∧
          arguments = commandLine pieces) := by
  refine ⟨fun pieces hpieces => configure_commandLine hpieces input terminal,
    fun pieces pieces' hpieces hpieces' hwords hoperands hcolor => ?_,
    fun operand hvalid => ⟨fun before hbefore form form' hform hform' after =>
      configure_define hbefore hvalid hform hform' after input terminal, fun hhead => ?_⟩,
    fun arguments hordinary => ⟨fun ⟨scan, hscan⟩ => Scan.exists_pieces hscan hordinary, ?_⟩⟩
  · rw [configure_commandLine hpieces, configure_commandLine hpieces', hwords, hoperands, hcolor,
      settle, settle]
    rcases Order.ofWords (words pieces') with error | order
    · rfl
    · change Except.map _ (((order.load input).mapError Stop.misuse).bind _) =
        Except.map _ (((order.load input).mapError Stop.misuse).bind _)
      rcases order.load input with error | command <;> rfl
  · exact configure_joined_ne hvalid hhead input terminal
  · rintro ⟨pieces, hpieces, rfl⟩
    exact ⟨_, Scan.read_pieces hpieces⟩

/-- A command line with a number among its words and with options before, between and behind
them. -/
theorem options_placed_freely_mixed :
    let pieces : List Piece := [.define .joined "a=string", .word "explain", .color true,
      .verbose false, .word "-5", .define .short "b=--define=c", .color false]
    (∀ piece ∈ pieces, piece.Valid ∧ piece.Plain) ∧
      configure ["--define=a=string", "explain", "--color", "-v", "-5", "-d", "b=--define=c",
          "--no-color"] "" true =
        .ok ⟨.explain "-5", [("a", "string"), ("b", "--define=c")], false, true⟩ := by
  intro pieces
  have hpieces : ∀ piece ∈ pieces, piece.Valid ∧ piece.Plain := by decide +kernel
  have hsettle : settle (words pieces) (operands pieces) (lastColor? pieces)
      (pieces.any Piece.isVerbose) "" true =
        .ok ⟨.explain "-5", [("a", "string"), ("b", "--define=c")], false, true⟩ := rfl
  have hline : commandLine pieces = ["--define=a=string", "explain", "--color", "-v", "-5", "-d",
      "b=--define=c", "--no-color"] := by decide
  have hconfigure := ((options_placed_freely "" true).1 pieces hpieces).trans hsettle
  rw [hline] at hconfigure
  exact ⟨hpieces, hconfigure⟩

/-- The joined form drops its beginning once more where the operand begins like it. -/
theorem configure_repeated_beginning :
    (readDefine? "--define=string").isSome = true ∧
    configure ["--define", "--define=string", "explain", "string"] "" false =
      .ok ⟨.explain "string", [("--define", "string")], false, false⟩ ∧
    configure ["--define=--define=string", "explain", "string"] "" false =
      .error (.misuse (.invalidDefine "string")) := by
  have hpieces : ∀ piece ∈ [Piece.define .long "--define=string", .word "explain",
      .word "string"], piece.Valid ∧ piece.Plain := by decide
  exact ⟨rfl, configure_commandLine hpieces "" false, rfl⟩

end Switchboard.Console
