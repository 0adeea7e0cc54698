import Containers.Proofs.Drawings

/-! Drawings read by the rules of the Graphviz language, as far as nodes with attributes and
edges go. A quoted name ends at the first quote that no backslash escapes, and the key of a
node is put between quotes as it is. So a drawing reads as what it should draw exactly if
the texts of all keys can stand between quotes. Numbers can, and texts that bring their own
quotes cannot. -/
namespace Containers

namespace Dot

/-- The tokens of a graph. -/
inductive Token where
  | name (text : List Char)
  | arrow
  | openBrace
  | closeBrace
  | openBracket
  | closeBracket
  | equals
  | semicolon
deriving DecidableEq

/-- What the characters read so far began: nothing, a bare name, a quoted name, one with a
backslash at its end, or an arrow. -/
inductive Reading where
  | between
  | word (text : List Char)
  | quote (text : List Char)
  | escape (text : List Char)
  | dash
deriving DecidableEq

/-- A character of a bare name. -/
def isWord (c : Char) : Bool :=
  c.isAlphanum || c == '_' || 0x80 ≤ c.toNat

/-- Reads a character that does not continue a name. -/
def start (c : Char) : Option (List Token × Reading) :=
  if c = ' ' ∨ c = '\n' ∨ c = '\t' ∨ c = '\r' then some ([], .between)
  else if c = '"' then some ([], .quote [])
  else if c = '-' then some ([], .dash)
  else if c = '\x7b' then some ([.openBrace], .between)
  else if c = '\x7d' then some ([.closeBrace], .between)
  else if c = '[' then some ([.openBracket], .between)
  else if c = ']' then some ([.closeBracket], .between)
  else if c = '=' then some ([.equals], .between)
  else if c = ';' then some ([.semicolon], .between)
  else if isWord c then some ([], .word [c])
  else none

/-- Reads a character. Inside quotes a backslash takes the next character along: a quote is
freed of it, a line break vanishes with it, and before all others it stays. -/
def step : Reading → Char → Option (List Token × Reading)
  | .between, c => start c
  | .word text, c =>
    if isWord c then some ([], .word (text ++ [c]))
    else (start c).map fun (made, next) => (.name text :: made, next)
  | .quote text, c =>
    if c = '"' then some ([.name text], .between)
    else if c = '\\' then some ([], .escape text)
    else some ([], .quote (text ++ [c]))
  | .escape text, c =>
    if c = '"' then some ([], .quote (text ++ ['"']))
    else if c = '\n' then some ([], .quote text)
    else some ([], .quote (text ++ ['\\', c]))
  | .dash, c => if c = '>' then some ([.arrow], .between) else none

/-- Tokens in front of what is read later. -/
def push (made : List Token) (later : List Token × Reading) : List Token × Reading :=
  (made ++ later.1, later.2)

/-- Reads characters: the tokens that they end, and what they begin. -/
def run (reading : Reading) : List Char → Option (List Token × Reading)
  | [] => some ([], reading)
  | c :: rest => (step reading c).bind fun taken => (run taken.2 rest).map (push taken.1)

/-- The statements of a graph: a node with its attributes, or an edge. -/
inductive Statement where
  | node (name : List Char) (attributes : List (List Char × List Char))
  | edge (source target : List Char)
deriving DecidableEq

/-- Reads statements up to the brace at the end, inside the attributes of a node or not. -/
def statements : Option (List Char × List (List Char × List Char)) → List Token → Option (List Statement)
  | none, [.closeBrace] => some []
  | none, .name source :: .arrow :: .name target :: .semicolon :: rest =>
    (.edge source target :: ·) <$> statements none rest
  | none, .name node :: .openBracket :: rest => statements (some (node, [])) rest
  | some (node, given), .name key :: .equals :: .name value :: .semicolon :: rest =>
    statements (some (node, given ++ [(key, value)])) rest
  | some (node, given), .name key :: .equals :: .name value :: .closeBracket :: .semicolon :: rest =>
    (.node node (given ++ [(key, value)]) :: ·) <$> statements none rest
  | _, _ => none

/-- Reads the inside of a graph. -/
def body (text : List Char) : Option (List Statement) :=
  match run .between text with
  | some (made, .between) => statements none made
  | _ => none

/-- Reads a graph: its name and its statements. -/
def read (text : List Char) : Option (List Char × List Statement) :=
  match run .between text with
  | some (.name kind :: .name name :: .openBrace :: made, .between) =>
    if kind = "digraph".toList then (name, ·) <$> statements none made else none
  | _ => none

/-- A text that reads as itself between quotes. -/
def quotable : List Char → Bool
  | [] => true
  | '\\' :: c :: rest => c != '"' && c != '\n' && quotable rest
  | c :: rest => c != '"' && c != '\\' && quotable rest

variable {reading middle last : Reading} {text first second : List Char} {made more : List Token}
  {found : List Statement}

/-- Every token is made by a character or by those behind it. -/
theorem run_cons_some {c : Char} : run reading (c :: text) = some (made, last) ↔
    ∃ own next more, step reading c = some (own, next) ∧ run next text = some (more, last) ∧ own ++ more = made := by
  simp [run, push, Option.bind_eq_some_iff]

/-- What comes later is read from where the characters before it lead. -/
theorem run_append (ran : run reading first = some (made, middle)) :
    run reading (first ++ second) = (run middle second).map (push made) := by
  induction first generalizing reading made with
  | nil =>
    cases ran
    exact (Option.map_id' ..).symm
  | cons c rest ih =>
    obtain ⟨own, next, more, stepped, ranRest, rfl⟩ := run_cons_some.mp ran
    simp only [List.cons_append, run, stepped, Option.bind_some, ih ranRest, Option.map_map]
    congr 1
    funext later
    simp [push]

theorem quotable_of_plain (plain : ∀ c ∈ text, c ≠ '"' ∧ c ≠ '\\') : quotable text = true := by
  induction text with
  | nil => rfl
  | cons c rest ih =>
    obtain ⟨⟨noQuote, noEscape⟩, plain⟩ := List.forall_mem_cons.mp plain
    rw [quotable.eq_3 c rest fun _ _ escape _ => noEscape escape]
    simp [noQuote, noEscape, ih plain]

theorem plain_toString (n : Nat) : ∀ c ∈ (toString n).toList, c ≠ '"' ∧ c ≠ '\\' := by
  intro c inside
  have digit := Sketch.isDigit_of_mem_toString inside
  constructor
  · rintro rfl
    exact absurd digit (by decide)
  · rintro rfl
    exact absurd digit (by decide)

/-- A text of this kind between quotes reads as itself. -/
theorem run_quotable (quoted : quotable text = true) (held : List Char) :
    run (.quote held) text = some ([], .quote (held ++ text)) := by
  fun_induction quotable text generalizing held with
  | case1 => simp [run]
  | case2 c rest ih =>
    simp only [Bool.and_eq_true, bne_iff_ne] at quoted
    obtain ⟨⟨noQuote, noBreak⟩, quoted⟩ := quoted
    simp [run, step, push, noQuote, noBreak, ih quoted]
  | case3 c rest other ih =>
    simp only [Bool.and_eq_true, bne_iff_ne] at quoted
    obtain ⟨⟨noQuote, noEscape⟩, quoted⟩ := quoted
    simp [run, step, push, noQuote, noEscape, ih quoted]

/-- Whatever is held of a quoted name is the beginning of that name. -/
theorem run_name {held : List Char}
    (ran : run (.quote held) text = some (made, .between) ∨ run (.escape held) text = some (made, .between)) :
    ∃ behind more, made = .name (held ++ behind) :: more := by
  induction text generalizing held made with
  | nil => rcases ran with ran | ran <;> cases ran
  | cons c rest ih =>
    have longer : ∀ own, ∀ made, run (.quote (held ++ own)) rest = some (made, .between) →
        ∃ behind more, made = .name (held ++ behind) :: more := by
      intro own made ran
      obtain ⟨behind, more, rfl⟩ := ih (.inl ran)
      exact ⟨own ++ behind, more, by rw [List.append_assoc]⟩
    rcases ran with ran | ran
    · obtain ⟨own, next, more, stepped, ran, rfl⟩ := run_cons_some.mp ran
      simp only [step] at stepped
      split_ifs at stepped
      · cases stepped
        exact ⟨[], more, by simp⟩
      · cases stepped
        exact ih (.inr ran)
      · cases stepped
        exact longer [c] _ ran
    · obtain ⟨own, next, more, stepped, ran, rfl⟩ := run_cons_some.mp ran
      simp only [step] at stepped
      split_ifs at stepped
      · cases stepped
        exact longer ['"'] _ ran
      · cases stepped
        exact ih (.inl ran)
      · cases stepped
        exact longer ['\\', c] _ ran

/-- A text of any other kind reads as a name with fewer characters or more quotes. -/
theorem run_quote {held : List Char} (ran : run (.quote held) (text ++ '"' :: second) = some (made, .between)) :
    ∃ behind more, made = .name (held ++ behind) :: more ∧
      ((behind = text ∧ quotable text = true) ∨ behind.length < text.length ∨ text.count '"' < behind.count '"') := by
  fun_induction quotable text generalizing held made with
  | case1 =>
    obtain ⟨own, next, more, stepped, -, rfl⟩ := run_cons_some.mp ran
    cases stepped
    exact ⟨[], more, by simp, .inl ⟨rfl, rfl⟩⟩
  | case2 c rest ih =>
    obtain ⟨own, next, more, stepped, ran, rfl⟩ := run_cons_some.mp ran
    cases stepped
    obtain ⟨own, next, more, stepped, ran, rfl⟩ := run_cons_some.mp ran
    simp only [step] at stepped
    split_ifs at stepped with quote newline
    · cases stepped
      obtain ⟨behind, more, rfl, reads⟩ := ih ran
      refine ⟨'"' :: behind, more, by simp, .inr ?_⟩
      rcases reads with ⟨rfl, -⟩ | shorter | quotes
      · exact .inl (by simp)
      · exact .inl (by simpa using shorter.trans (Nat.lt_succ_self _))
      · exact .inr (by simpa [quote] using quotes)
    · cases stepped
      obtain ⟨behind, more, rfl, reads⟩ := ih ran
      refine ⟨behind, more, rfl, .inr ?_⟩
      rcases reads with ⟨rfl, -⟩ | shorter | quotes
      · exact .inl (by simp only [List.length_cons]; omega)
      · exact .inl (by simp only [List.length_cons]; omega)
      · exact .inr (by simpa [newline] using quotes)
    · cases stepped
      obtain ⟨behind, more, rfl, reads⟩ := ih ran
      refine ⟨'\\' :: c :: behind, more, by simp, ?_⟩
      rcases reads with ⟨rfl, quoted⟩ | shorter | quotes
      · exact .inl ⟨rfl, by simp [quote, newline, quoted]⟩
      · exact .inr (.inl (by simpa using shorter))
      · exact .inr (.inr (by simpa [List.count_cons, quote] using quotes))
  | case3 c rest other ih =>
    obtain ⟨own, next, more, stepped, ran, rfl⟩ := run_cons_some.mp ran
    simp only [step] at stepped
    split_ifs at stepped with quote escape
    · cases stepped
      exact ⟨[], more, by simp, .inr (.inl (by simp))⟩
    · cases stepped
      cases rest with
      | cons next rest => exact (other next rest escape rfl).elim
      | nil =>
        -- The backslash frees the quote that was to end the name.
        obtain ⟨own, next, more, stepped, ran, rfl⟩ := run_cons_some.mp ran
        cases stepped
        obtain ⟨behind, more, rfl⟩ := run_name (.inl ran)
        exact ⟨'"' :: behind, more, by simp, .inr (.inr (by simp [escape]))⟩
    · cases stepped
      obtain ⟨behind, more, rfl, reads⟩ := ih ran
      refine ⟨c :: behind, more, by simp, ?_⟩
      rcases reads with ⟨rfl, quoted⟩ | shorter | quotes
      · exact .inl ⟨rfl, by simp [quote, escape, quoted]⟩
      · exact .inr (.inl (by simpa using shorter))
      · exact .inr (.inr (by simpa [List.count_cons, quote] using quotes))

/-- A text that is not of this kind does not read as itself. -/
theorem quotable_of_run {held : List Char} {more : List Token}
    (ran : run (.quote held) (text ++ '"' :: second) = some (.name (held ++ text) :: more, .between)) :
    quotable text = true := by
  obtain ⟨behind, _, same, reads⟩ := run_quote ran
  cases List.append_cancel_left (Token.name.inj (List.cons.inj same).1)
  rcases reads with ⟨-, quoted⟩ | shorter | quotes
  · exact quoted
  · exact absurd shorter (Nat.lt_irrefl _)
  · exact absurd quotes (Nat.lt_irrefl _)

/-- The first attribute that is read is the first one of the node. -/
theorem statements_node {node : List Char} {given : List (List Char × List Char)}
    (parsed : statements (some (node, given)) made = some found) :
    ∃ key value more attributes rest, made = .name key :: .equals :: .name value :: more ∧
      found = .node node (given ++ (key, value) :: attributes) :: rest := by
  generalize context : some (node, given) = inside at parsed
  fun_induction statements inside made generalizing given found with
  | case1 => cases context
  | case2 => cases context
  | case3 => cases context
  | case4 own held key value rest ih =>
    cases context
    obtain ⟨_, _, _, _, behind, -, rfl⟩ := ih rfl parsed
    exact ⟨key, value, _, _, behind, rfl, by rw [List.append_assoc]; rfl⟩
  | case5 own held key value rest ih =>
    cases context
    obtain ⟨behind, -, rfl⟩ := Option.map_eq_some_iff.mp parsed
    exact ⟨key, value, _, [], behind, rfl, rfl⟩
  | case6 => cases parsed

/-- A line that reads as some statements stands for these in front of what is read later. -/
theorem body_append {line : List Char} (ran : run .between line = some (made, .between))
    (parsed : ∀ more, statements none (made ++ more) = (found ++ ·) <$> statements none more) (rest : List Char) :
    body (line ++ rest) = (found ++ ·) <$> body rest := by
  rw [body, body, run_append ran]
  rcases run .between rest with _ | ⟨more, last⟩
  · rfl
  · cases last with
    | between => exact parsed more
    | word | quote | escape | dash => rfl

end Dot

namespace Sketch
variable {κ : Type} [Shown κ] {slot child : Nat} {sketch : Sketch κ}

open Dot

/-- The name of a slot in a drawing. -/
def dotName (slot : Nat) : List Char :=
  'n' :: (toString slot).toList

/-- What a drawing says of a slot. -/
def dotNode (slot : Nat) (sketch : Sketch κ) : Statement :=
  .node (dotName slot) [("label".toList, (Shown.text sketch.key).toList), ("style".toList, "filled".toList),
    ("fillcolor".toList, sketch.color.dotName.toList), ("fontcolor".toList, "white".toList)]

/-- What a drawing says of these slots and their children. -/
def statementsFrom (slot : Nat) : List (Sketch κ) → List Statement
  | [] => []
  | sketch :: rest =>
    sketch.dotNode slot :: sketch.children.map (fun child => .edge (dotName slot) (dotName child)) ++
      statementsFrom (slot + 1) rest

/-- The tokens of the line of a node. -/
def nodeTokens (slot : Nat) (sketch : Sketch κ) : List Token :=
  [.name (dotName slot), .openBracket, .name "label".toList, .equals, .name (Shown.text sketch.key).toList,
    .semicolon, .name "style".toList, .equals, .name "filled".toList, .semicolon, .name "fillcolor".toList, .equals,
    .name sketch.color.dotName.toList, .semicolon, .name "fontcolor".toList, .equals, .name "white".toList,
    .closeBracket, .semicolon]

/-- The name of a slot is read up to the quote at its end. -/
theorem run_dotName (slot : Nat) (rest : List Char) :
    run .between ("\"n".toList ++ (toString slot).toList ++ rest) = run (.quote (dotName slot)) rest := by
  have quoted : quotable (dotName slot) = true := by
    apply quotable_of_plain
    exact List.forall_mem_cons.mpr ⟨by decide, plain_toString slot⟩
  have opened : run .between (['"'] ++ dotName slot) = some ([], .quote (dotName slot)) := by
    rw [run_append (show run .between ['"'] = some ([], .quote []) from rfl), run_quotable quoted]
    rfl
  change run .between ((['"'] ++ dotName slot) ++ rest) = _
  rw [run_append opened]
  exact Option.map_id' ..

theorem run_edgeLine (slot child : Nat) : run .between (edgeLine slot child ++ ['\n']) =
    some ([.name (dotName slot), .arrow, .name (dotName child), .semicolon], .between) := by
  have arrow : run (.quote (dotName slot)) "\" -> ".toList = some ([.name (dotName slot), .arrow], .between) := rfl
  have split : edgeLine slot child ++ ['\n'] = "\"n".toList ++ (toString slot).toList ++
      ("\" -> ".toList ++ ("\"n".toList ++ (toString child).toList ++ "\";\n".toList)) := by
    simp [edgeLine]
  rw [split, run_dotName, run_append arrow, run_dotName]
  rfl

/-- The line of a node up to its label. -/
theorem run_nodeLine (slot : Nat) (sketch : Sketch κ) (rest : List Char) :
    run .between (sketch.nodeLine slot ++ '\n' :: rest) =
      (run (.quote []) ((Shown.text sketch.key).toList ++ '"' :: ("; style=filled; fillcolor=".toList ++
        sketch.color.dotName.toList ++ "; fontcolor=white];\n".toList ++ rest))).map
          (push [.name (dotName slot), .openBracket, .name "label".toList, .equals]) := by
  have opened : run (.quote (dotName slot)) "\" [label=\"".toList =
    some ([.name (dotName slot), .openBracket, .name "label".toList, .equals], .quote []) := rfl
  rw [← run_append opened, ← run_dotName]
  simp [nodeLine]

/-- The line of a node whose key can stand between quotes. -/
theorem body_nodeLine (quoted : quotable (Shown.text sketch.key).toList = true) (slot : Nat) (rest : List Char) :
    body (sketch.nodeLine slot ++ '\n' :: rest) = (sketch.dotNode slot :: ·) <$> body rest := by
  have closed : run (.quote (Shown.text sketch.key).toList) ('"' :: ("; style=filled; fillcolor=".toList ++
      sketch.color.dotName.toList ++ "; fontcolor=white];\n".toList)) =
      some ((sketch.nodeTokens slot).drop 4, .between) := by
    cases colour : sketch.color <;> simp only [nodeTokens, colour] <;> rfl
  have ran : run .between (sketch.nodeLine slot ++ ['\n']) = some (sketch.nodeTokens slot, .between) := by
    rw [run_nodeLine, List.append_nil, run_append (run_quotable quoted []), List.nil_append, closed]
    rfl
  have parsed : ∀ more, statements none (sketch.nodeTokens slot ++ more) =
    ([sketch.dotNode slot] ++ ·) <$> statements none more := fun _ => rfl
  have line := body_append ran parsed rest
  rwa [List.append_assoc] at line

/-- The label that is read is the key's text only if that can stand between quotes. -/
theorem quotable_of_body {rest : List Char} {others : List Statement}
    (parsed : body (sketch.nodeLine slot ++ '\n' :: rest) = some (sketch.dotNode slot :: others)) :
    quotable (Shown.text sketch.key).toList = true := by
  rw [body, run_nodeLine] at parsed
  generalize ran : run (.quote []) _ = label at parsed
  rcases label with _ | ⟨made, _ | _ | _ | _ | _⟩
  · cases parsed
  · have inside : statements (some (dotName slot, [])) (.name "label".toList :: .equals :: made) =
      some (sketch.dotNode slot :: others) := parsed
    obtain ⟨_, _, _, _, _, tokens, same⟩ := statements_node inside
    cases tokens
    cases same
    exact quotable_of_run ran
  all_goals cases parsed

/-- The lines of edges. -/
theorem body_edges (slot : Nat) (children : List Nat) (rest : List Char) :
    body ((children.map (edgeLine slot)).flatMap (· ++ ['\n']) ++ rest) =
      (children.map (fun child => .edge (dotName slot) (dotName child)) ++ ·) <$> body rest := by
  induction children with
  | nil => exact (Option.map_id' ..).symm
  | cons child children ih =>
    have parsed : ∀ more, statements none ([.name (dotName slot), .arrow, .name (dotName child), .semicolon] ++ more) =
      ([.edge (dotName slot) (dotName child)] ++ ·) <$> statements none more := fun _ => rfl
    rw [List.map_cons, List.flatMap_cons, List.append_assoc, body_append (run_edgeLine slot child) parsed, ih]
    cases body rest <;> rfl

/-- Lines read as what they should say exactly if all keys can stand between quotes. -/
theorem body_linesFrom_iff (slot : Nat) (sketches : List (Sketch κ)) :
    body ((linesFrom slot sketches).flatMap (· ++ ['\n'])) = some (statementsFrom slot sketches) ↔
      ∀ sketch ∈ sketches, quotable (Shown.text sketch.key).toList = true := by
  induction sketches generalizing slot with
  | nil => exact iff_of_true rfl nofun
  | cons sketch rest ih =>
    rw [List.forall_mem_cons, ← ih (slot + 1)]
    simp only [linesFrom, statementsFrom, List.cons_append, List.flatMap_cons, List.flatMap_append, List.append_assoc,
      List.nil_append]
    constructor
    · intro parsed
      have quoted := quotable_of_body parsed
      rw [body_nodeLine quoted, body_edges] at parsed
      simpa [quoted] using parsed
    · rintro ⟨quoted, parsed⟩
      rw [body_nodeLine quoted, body_edges, parsed]
      rfl

end Sketch

namespace Tree
variable {α κ : Type} [Keyed α κ] [Shown κ]

/-- What a drawing should say: the slots with the texts of their keys as labels and with their
colours, and the edges to their children. -/
def graph (tree : Tree α) : List Char × List Dot.Statement :=
  ("G".toList, Sketch.statementsFrom 0 tree.sketches)

/-- The drawing reads as what it should say exactly if all keys can stand between quotes. -/
theorem read_toDot_iff_sketches (tree : Tree α) : Dot.read tree.toDot.toList = some tree.graph ↔
    ∀ sketch ∈ tree.sketches, Dot.quotable (Shown.text sketch.key).toList = true := by
  have opened : Dot.run .between ("digraph G \x7b".toList ++ ['\n']) =
    some ([.name "digraph".toList, .name "G".toList, .openBrace], .between) := rfl
  have split : Dot.read tree.toDot.toList =
      ("G".toList, ·) <$> Dot.body ((Sketch.linesFrom 0 tree.sketches).flatMap (· ++ ['\n'])) := by
    rw [toList_toDot, dotLines, List.flatMap_cons, Dot.read, Dot.run_append opened, Dot.body]
    rcases Dot.run .between _ with _ | ⟨made, _ | _ | _ | _ | _⟩ <;> rfl
  rw [split, graph, ← Sketch.body_linesFrom_iff 0 tree.sketches]
  simp

/-- The drawing of a tree reads as a graph with one node for each slot, labelled with the text
of its key, and one edge for each child, exactly if the texts of all keys can stand between
quotes as they are. -/
theorem read_toDot_iff (tree : Tree α) : Dot.read tree.toDot.toList = some tree.graph ↔
    ∀ x ∈ tree.values, Dot.quotable (Shown.text (Keyed.key x)).toList = true := by
  rw [read_toDot_iff_sketches]
  simp [sketches, values, Node.sketch]

/-- What is shown of a text begins with a quote, which ends the label before its first character. -/
theorem unreadable_toDot : (Tree.grown ["a"]).Reachable ∧
    Dot.read (Tree.grown ["a"]).toDot.toList ≠ some (Tree.grown ["a"]).graph ∧
    Dot.read (Tree.grown ["a"]).toDot.toList = none := by
  have skeleton : (Tree.grown ["a"]).skeleton = [("a", ⟨none, none, none, .black⟩)] := rfl
  have read : Dot.read (Tree.grown ["a"]).toDot.toList = none := by
    rw [toList_toDot, dotLines, sketches_eq, skeleton]
    simp only [List.map_cons, List.map_nil, Sketch.linesFrom, Sketch.nodeLine]
    rfl
  exact ⟨Tree.grown_reachable _, by rw [read]; exact (Option.some_ne_none _).symm, read⟩

/-- Numbers can always be read. -/
theorem read_toDot_int64 {α : Type} [Keyed α Int64] (tree : Tree α) :
    Dot.read tree.toDot.toList = some tree.graph := by
  rw [read_toDot_iff_sketches]
  intro sketch _
  apply Dot.quotable_of_plain
  change ∀ c ∈ (toString sketch.key.toInt).toList, c ≠ '"' ∧ c ≠ '\\'
  cases sketch.key.toInt with
  | ofNat n => exact Dot.plain_toString n
  | negSucc n =>
    have sign : ∀ c ∈ ['-'], c ≠ '"' ∧ c ≠ '\\' := List.forall_mem_singleton.mpr (by decide)
    change ∀ c ∈ ("-" ++ toString (n + 1)).toList, c ≠ '"' ∧ c ≠ '\\'
    rw [String.toList_append, List.forall_mem_append]
    exact ⟨sign, Dot.plain_toString (n + 1)⟩

/-- Texts can never be read. -/
theorem read_toDot_string {α : Type} [Keyed α String] (tree : Tree α) :
    Dot.read tree.toDot.toList = some tree.graph ↔ tree.size = 0 := by
  have closes : ∀ text : String, Dot.quotable (Shown.text text).toList = false := fun text => by
    simp [Shown.text, Text.quoted, Dot.quotable]
  rw [read_toDot_iff_sketches]
  simp only [closes, Bool.false_eq_true, imp_false, ← List.eq_nil_iff_forall_not_mem]
  rw [sketches, List.map_eq_nil_iff, Array.toList_eq_nil_iff, ← Array.size_eq_zero_iff]
  rfl

end Tree

end Containers
