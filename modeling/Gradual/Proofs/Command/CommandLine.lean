import Mathlib.Data.List.Basic
import Gradual.Command.Options

/-!
# Command lines in any order

A command line is a command and then a file, with options before, between and behind them in any
order. An option may have a value, which belongs to it whatever it looks like. Empty arguments are
passed over. Arguments that have no place, which are unknown options and what stands behind the
file, change nothing but the fault, which names the first of them.

`CommandLine` is such a line with the arguments it is written as, and `Options.ofChoices` says what
its options ask for by the last value of each. Main statement: `Args.parse_commandLine`.
-/

namespace Gradual

/-! ## Options -/

namespace Switch

/-- How an option is written. -/
def written : Switch → List Text
  | help => ["-h", "--help"]
  | version => ["-v", "--version"]
  | verbose => ["-V", "--verbose"]
  | quiet => ["-q", "--quiet"]
  | config => ["-c", "--config"]
  | types => ["--types"]
  | format => ["--format"]
  | severity => ["--min-severity"]

/-- A switch is read exactly from the arguments that it may be written as. -/
theorem ofArg?_eq_some_iff {arg : Text} {s : Switch} : ofArg? arg = some s ↔ arg ∈ s.written := by
  constructor
  · intro h
    obtain ⟨e, he, rfl⟩ := Option.map_eq_some_iff.1 h
    have harg := List.find?_some he
    have hall : ∀ e ∈ spellings, e.1 ∈ e.2.written := by decide
    rw [← beq_iff_eq.1 harg]
    exact hall e (List.mem_of_find?_eq_some he)
  · revert arg
    cases s <;> decide

/-- All switches are written with a dash in front. -/
theorem head?_of_mem_written {arg : Text} {s : Switch} (h : arg ∈ s.written) :
    arg.head? = some 0x2D := by
  revert arg
  cases s <;> decide

end Switch

/-- An option with its value. -/
inductive Choice where
  | verbose
  | quiet
  | types
  | format (f : OutputFormat)
  | severity (s : Severity)
  | config (path : Text)
deriving DecidableEq

namespace Choice

/-- The option without its value. -/
def switch : Choice → Switch
  | verbose => .verbose
  | quiet => .quiet
  | types => .types
  | format _ => .format
  | severity _ => .severity
  | config _ => .config

/-- The arguments behind the option. -/
def value : Choice → List Text
  | verbose | quiet | types => []
  | format f => [f.name]
  | severity s => [s.name]
  | config path => [path]

def format? : Choice → Option OutputFormat
  | format f => some f
  | _ => none

def severity? : Choice → Option Severity
  | severity s => some s
  | _ => none

def config? : Choice → Option Text
  | config path => some path
  | _ => none

/-- The last value of a kind. -/
def last {α : Type} (get : Choice → Option α) (cs : List Choice) : Option α :=
  (cs.filterMap get).getLast?

/-- Of two choices for one option the later one counts. -/
theorem last_cons {α : Type} (get : Choice → Option α) (c : Choice) (cs : List Choice) :
    last get (c :: cs) = (last get cs).or (get c) := by
  unfold last
  cases hc : get c with
  | none => rw [List.filterMap_cons_none hc, Option.or_none]
  | some a => rw [List.filterMap_cons_some hc, List.getLast?_cons, Option.or_some]

end Choice

namespace Options

/-- What options ask for: the last value of each. -/
def ofChoices (cs : List Choice) : Options where
  verbose := decide (.verbose ∈ cs)
  quiet := decide (.quiet ∈ cs)
  config := Choice.last Choice.config? cs
  format := Choice.last Choice.format? cs
  types := if .types ∈ cs then some true else .none
  minSeverity := Choice.last Choice.severity? cs

/-- Asks for one more thing. -/
def choose (o : Options) : Choice → Options
  | .verbose => { o with verbose := true }
  | .quiet => { o with quiet := true }
  | .types => { o with types := some true }
  | .format f => { o with format := some f }
  | .severity s => { o with minSeverity := some s }
  | .config path => { o with config := some path }

/-- Asking one after the other, the last value of each option stays. -/
theorem foldl_choose (cs : List Choice) (o : Options) :
    cs.foldl choose o =
      ⟨decide (.verbose ∈ cs) || o.verbose, decide (.quiet ∈ cs) || o.quiet,
        (Choice.last Choice.config? cs).or o.config, (Choice.last Choice.format? cs).or o.format,
        if .types ∈ cs then some true else o.types,
          (Choice.last Choice.severity? cs).or o.minSeverity⟩ := by
  induction cs generalizing o with
  | nil => simp [Choice.last]
  | cons c cs ih =>
    rw [List.foldl_cons, ih]
    cases c <;> simp [Choice.last_cons, choose, Choice.config?, Choice.format?, Choice.severity?]

/-- The options that choices lead to from nothing are those read off the choices. -/
theorem foldl_choose_none (cs : List Choice) : cs.foldl choose .none = ofChoices cs := by
  rw [foldl_choose]
  simp [none, ofChoices]

end Options

/-! ## Items -/

/-- One thing on a command line besides command and file. -/
inductive Item where
  /-- An empty argument. -/
  | blank
  /-- An option in one of its spellings. -/
  | option (spelling : Text) (choice : Choice) (spelled : spelling ∈ choice.switch.written)
  /-- An argument that has no place. -/
  | stray (arg : Text)

namespace Item

/-- How an item is written. -/
def args : Item → List Text
  | blank => [[]]
  | option spelling choice _ => spelling :: choice.value
  | stray arg => [arg]

def choice? : Item → Option Choice
  | option _ choice _ => some choice
  | _ => none

def stray? : Item → Option Text
  | stray arg => some arg
  | _ => none

/-- The arguments that have no place. -/
def strays (xs : List Item) : List Text := xs.filterMap stray?

/-- The options in order. -/
def choices (xs : List Item) : List Choice := xs.filterMap choice?

/-- The items that have a place. -/
def placed (xs : List Item) : List Item := xs.filter fun x => x.stray?.isNone

/-- No argument without a place is among the placed ones. -/
theorem strays_placed (xs : List Item) : strays (placed xs) = [] := by
  unfold strays placed
  rw [List.filterMap_eq_nil_iff]
  intro x hx
  exact Option.isNone_iff_eq_none.1 (List.mem_filter.1 hx).2

/-- Leaving out arguments without a place loses no choice. -/
theorem choices_placed (xs : List Item) : choices (placed xs) = choices xs := by
  unfold choices placed
  induction xs with
  | nil => rfl
  | cons x xs ih =>
    cases x with
    | blank => exact ih
    | option spelling choice spelled => exact congrArg (choice :: ·) ih
    | stray arg => exact ih

end Item

/-! ## Lines -/

/-- Whether an argument can be a command or a file: it is not empty and does not start with a
dash. -/
def Text.IsPositional (arg : Text) : Prop := arg ≠ [] ∧ arg.head? ≠ some 0x2D

/-- Whether an argument starts with a dash and is no option. -/
def Text.IsUnknownOption (arg : Text) : Prop :=
  arg.head? = some 0x2D ∧ ∀ s : Switch, arg ∉ s.written

/-- A command line. An argument without a place is an unknown option, or, behind the file, one that
could be a file. -/
structure CommandLine where
  before : List Item
  command : Text
  between : List Item
  file : Option Text
  after : List Item
  command_positional : command.IsPositional
  file_positional : ∀ f ∈ file, f.IsPositional
  before_strays : ∀ arg ∈ Item.strays before, arg.IsUnknownOption
  between_strays : ∀ arg ∈ Item.strays between, arg.IsUnknownOption
  after_strays : ∀ arg ∈ Item.strays after, arg.IsUnknownOption ∨ file.isSome = true ∧
    arg.IsPositional

namespace CommandLine

/-- The items in order. -/
def items (l : CommandLine) : List Item := l.before ++ l.between ++ l.after

/-- The arguments that the line is written as. -/
def args (l : CommandLine) : List Text :=
  l.before.flatMap Item.args ++ l.command ::
    (l.between.flatMap Item.args ++ (l.file.toList ++ l.after.flatMap Item.args))

/-- The options of the line in order. -/
def choices (l : CommandLine) : List Choice := Item.choices l.items

/-- The arguments of the line that have no place, in order. -/
def strays (l : CommandLine) : List Text := Item.strays l.items

/-- The line without the arguments that have no place. -/
def clean (l : CommandLine) : CommandLine where
  before := Item.placed l.before
  command := l.command
  between := Item.placed l.between
  file := l.file
  after := Item.placed l.after
  command_positional := l.command_positional
  file_positional := l.file_positional
  before_strays := by simp [Item.strays_placed]
  between_strays := by simp [Item.strays_placed]
  after_strays := by simp [Item.strays_placed]

/-- The items of a clean line are those that have a place. -/
theorem items_clean (l : CommandLine) : l.clean.items = Item.placed l.items := by
  simp [items, clean, Item.placed]

/-- A clean line makes the same choices. -/
theorem choices_clean (l : CommandLine) : l.clean.choices = l.choices := by
  rw [choices, items_clean, Item.choices_placed, choices]

/-- A clean line has no argument without a place. -/
theorem strays_clean (l : CommandLine) : l.clean.strays = [] := by
  rw [strays, items_clean, Item.strays_placed]

end CommandLine

/-! ## Reading -/

/-- A format is read exactly from its name. -/
theorem OutputFormat.ofName?_eq_some_iff {t : Text} {f : OutputFormat} :
    ofName? t = some f ↔ t = f.name := by
  constructor
  · intro h
    have hname := List.find?_some h
    exact (beq_iff_eq.1 hname).symm
  · rintro rfl
    cases f <;> rfl

/-- A severity is read exactly from its name. -/
theorem Severity.ofName?_eq_some_iff {t : Text} {s : Severity} :
    ofName? t = some s ↔ t = s.name := by
  constructor
  · intro h
    have hname := List.find?_some h
    exact (beq_iff_eq.1 hname).symm
  · rintro rfl
    cases s <;> rfl

namespace Args

/-- An argument is dashed when it starts with a dash. -/
theorem isDashed_iff {arg : Text} : isDashed arg = true ↔ arg.head? = some 0x2D := by
  rw [isDashed, beq_iff_eq]

/-- A positional argument is not dashed. -/
theorem isDashed_eq_false {arg : Text} (h : arg.IsPositional) : isDashed arg = false :=
  Bool.eq_false_iff.2 fun hdash => h.2 (isDashed_iff.1 hdash)

theorem isEmpty_eq_false {arg : Text} (h : arg ≠ []) : arg.isEmpty = false :=
  Bool.eq_false_iff.2 fun hempty => h (List.isEmpty_iff.1 hempty)

theorem ne_nil_of_head? {arg : Text} {c : CodeUnit} (h : arg.head? = some c) : arg ≠ [] := by
  rintro rfl
  cases h

/-- An empty argument is skipped. -/
theorem read_blank (a : Args) (rest : List Text) : read a ([] :: rest) = read a rest := rfl

/-- The first positional argument is the command. -/
theorem read_command (a : Args) {arg : Text} (rest : List Text) (h : arg.IsPositional)
    (ha : a.command = []) :
    read a (arg :: rest) = read { a with command := arg } rest := by
  rw [read.eq_def]
  simp [isEmpty_eq_false h.1, isDashed_eq_false h, ha]

/-- The second positional argument is the file. -/
theorem read_file (a : Args) {arg : Text} (rest : List Text) (h : arg.IsPositional)
    (ha : a.command ≠ []) (hfile : a.file = none) :
    read a (arg :: rest) = read { a with file := some arg } rest := by
  rw [read.eq_def]
  simp [isEmpty_eq_false h.1, isDashed_eq_false h, isEmpty_eq_false ha, hfile]

/-- A spelling of an option, with the value behind it. -/
theorem read_option (a : Args) {spelling : Text} {choice : Choice} (rest : List Text)
    (h : spelling ∈ choice.switch.written) :
    read a (spelling :: (choice.value ++ rest)) =
      read { a with options := a.options.choose choice } rest := by
  have hhead := Switch.head?_of_mem_written h
  rw [read.eq_def]
  dsimp only
  rw [isEmpty_eq_false (ne_nil_of_head? hhead), isDashed_iff.2 hhead, Switch.ofArg?_eq_some_iff.2 h]
  cases choice with
  | format f =>
    dsimp only [Choice.value, Choice.switch, List.singleton_append]
    rw [setFormat, OutputFormat.ofName?_eq_some_iff.2 rfl]
    rfl
  | severity s =>
    dsimp only [Choice.value, Choice.switch, List.singleton_append]
    rw [setSeverity, Severity.ofName?_eq_some_iff.2 rfl]
    rfl
  | _ => rfl

/-- Whether an argument has no place behind what was read. -/
def Refuses (a : Args) (arg : Text) : Prop :=
  arg.IsUnknownOption ∨ a.command ≠ [] ∧ a.file.isSome = true ∧ arg.IsPositional

/-- An argument without a place is no switch. -/
theorem Refuses.ofArg?_eq_none {a : Args} {arg : Text} (h : a.Refuses arg) :
    Switch.ofArg? arg = none := by
  refine Option.eq_none_iff_forall_ne_some.2 fun s hs => ?_
  have hwritten := Switch.ofArg?_eq_some_iff.1 hs
  rcases h with ⟨-, hunknown⟩ | ⟨-, -, hpositional⟩
  · exact hunknown s hwritten
  · exact hpositional.2 (Switch.head?_of_mem_written hwritten)

/-- An argument without a place leaves a fault, and reading goes on. -/
theorem read_refused (a : Args) {arg : Text} (rest : List Text) (h : a.Refuses arg) :
    read a (arg :: rest) = read (a.fail (.unknownOption arg)) rest := by
  have hnone := h.ofArg?_eq_none
  rw [read.eq_def]
  rcases h with ⟨hhead, -⟩ | ⟨hcommand, hfile, hpositional⟩
  · simp [isEmpty_eq_false (ne_nil_of_head? hhead), isDashed_iff.2 hhead, hnone]
  · simp [isEmpty_eq_false hpositional.1, isEmpty_eq_false hcommand,
      Option.isSome_iff_ne_none.1 hfile, hnone]

/-- What was read, with items behind it. -/
def withItems (a : Args) (xs : List Item) : Args :=
  { a with
    options := (Item.choices xs).foldl Options.choose a.options
    fault := a.fault.or ((Item.strays xs).head?.map .unknownOption) }

theorem withItems_nil (a : Args) : a.withItems [] = a := by
  have hsame : a.withItems [] = { a with fault := a.fault.or none } := rfl
  rw [hsame, Option.or_none]

/-- Items one after another are read one after another. -/
theorem withItems_append (a : Args) (xs ys : List Item) :
    a.withItems (xs ++ ys) = (a.withItems xs).withItems ys := by
  simp only [withItems, Item.choices, Item.strays, List.filterMap_append, List.foldl_append,
    List.head?_append, Option.map_or, Option.or_assoc]

/-- One item is read as a whole. -/
theorem read_item (a : Args) (x : Item) (rest : List Text) (h : ∀ arg ∈ x.stray?, a.Refuses arg) :
    read a (x.args ++ rest) = read (a.withItems [x]) rest := by
  cases x with
  | blank =>
    have hsame : a.withItems [.blank] = { a with fault := a.fault.or none } := rfl
    rw [hsame, Option.or_none]
    exact read_blank a rest
  | option spelling choice spelled =>
    have hoption : a.withItems [.option spelling choice spelled] =
      { a with options := a.options.choose choice, fault := a.fault.or none } := rfl
    rw [hoption, Option.or_none]
    exact read_option a rest spelled
  | stray arg => exact read_refused a rest (h arg rfl)

/-- Items are read one after the other. What has no place among them depends on command and file
only, which stay. -/
theorem read_items (a : Args) (xs : List Item) (rest : List Text)
    (h : ∀ arg ∈ Item.strays xs, a.Refuses arg) :
    read a (xs.flatMap Item.args ++ rest) = read (a.withItems xs) rest := by
  induction xs generalizing a with
  | nil => rw [List.flatMap_nil, List.nil_append, withItems_nil]
  | cons x xs ih =>
    have hfirst : ∀ arg ∈ x.stray?, a.Refuses arg :=
      fun arg harg => h arg (List.mem_filterMap.2 ⟨x, by simp, harg⟩)
    have hmore : ∀ arg ∈ Item.strays xs, (a.withItems [x]).Refuses arg := by
      intro arg harg
      obtain ⟨y, hy, hstray⟩ := List.mem_filterMap.1 harg
      exact h arg (List.mem_filterMap.2 ⟨y, List.mem_cons_of_mem x hy, hstray⟩)
    rw [List.flatMap_cons, List.append_assoc, read_item a x _ hfirst, ih _ hmore,
      ← withItems_append, List.singleton_append]

/-- A file that may be left out. -/
theorem read_file? (a : Args) (file : Option Text) (rest : List Text)
    (h : ∀ f ∈ file, f.IsPositional) (ha : a.command ≠ []) (hfile : a.file = none) :
    read a (file.toList ++ rest) = read { a with file := file } rest := by
  cases file with
  | none =>
    have hsame : { a with file := none } = a := by rw [← hfile]
    rw [hsame]
    rfl
  | some f => exact read_file a rest (h f rfl) ha hfile

/-- A line is read to its command, its file, what its options ask for, and the first argument that
has no place. -/
theorem parse_args (l : CommandLine) :
    parse l.args = ⟨l.command, l.file, .ofChoices l.choices,
      l.strays.head?.map .unknownOption⟩ := by
  have hcommand := l.command_positional
  have hafter : ∀ arg ∈ Item.strays l.after,
      ({ empty with command := l.command, file := l.file }.withItems
        (l.before ++ l.between)).Refuses arg := by
    intro arg harg
    rcases l.after_strays arg harg with hunknown | ⟨hfile, hpositional⟩
    · exact .inl hunknown
    · exact .inr ⟨hcommand.1, hfile, hpositional⟩
  calc parse l.args
      = read (empty.withItems l.before) (l.command ::
          (l.between.flatMap Item.args ++ (l.file.toList ++ l.after.flatMap Item.args))) :=
        read_items empty l.before _ fun arg harg => .inl (l.before_strays arg harg)
    _ = read ({ empty with command := l.command }.withItems l.before)
          (l.between.flatMap Item.args ++ (l.file.toList ++ l.after.flatMap Item.args)) :=
        read_command _ _ hcommand rfl
    _ = read ({ empty with command := l.command }.withItems (l.before ++ l.between))
          (l.file.toList ++ l.after.flatMap Item.args) := by
        rw [withItems_append]
        exact read_items _ l.between _ fun arg harg => .inl (l.between_strays arg harg)
    _ = read ({ empty with command := l.command, file := l.file }.withItems (l.before ++ l.between))
          (l.after.flatMap Item.args) :=
        read_file? _ l.file _ l.file_positional hcommand.1 rfl
    _ = { empty with command := l.command, file := l.file }.withItems l.items := by
        rw [← List.append_nil (l.after.flatMap Item.args), read_items _ l.after [] hafter,
          ← withItems_append]
        rfl
    _ = ⟨l.command, l.file, .ofChoices l.choices, l.strays.head?.map .unknownOption⟩ := by
        rw [withItems, empty, Options.foldl_choose_none, Option.none_or]
        rfl

/-- **Options stand in any order.** A command line without arguments that have no place is read to
its command, its file and the last value of each option, without a fault. With such arguments among
the others it is read to the same, with a fault that names the first of them. -/
theorem parse_commandLine (l : CommandLine) :
    parse l.clean.args = ⟨l.command, l.file, .ofChoices l.choices, none⟩ ∧
      parse l.args = { parse l.clean.args with fault := l.strays.head?.map .unknownOption } ∧
      (parse l.args).fault.map ArgsFault.message = l.strays.head?.map fun arg : Text =>
        "Unknown option: " ++ arg := by
  have hclean : parse l.clean.args = ⟨l.command, l.file, .ofChoices l.choices, none⟩ := by
    rw [parse_args, l.choices_clean, l.strays_clean]
    rfl
  refine ⟨hclean, by rw [hclean, parse_args], ?_⟩
  rw [parse_args, Option.map_map]
  rfl

/-- The value of `-c` looks like an option, and two arguments behind the file have no place. -/
theorem parse_commandLine_strays :
    ∃ l : CommandLine,
      l.args = ["-c", "--quiet", "", "check", "а.bsl", "--format", "text", "б.bsl", "--watch",
        "--format", "json"] ∧
      l.strays = ["б.bsl", "--watch"] ∧
      parse l.args = ⟨"check", some "а.bsl",
        { Options.none with config := some "--quiet", format := some .json },
        some (.unknownOption "б.bsl")⟩ := by
  let l : CommandLine :=
    { before := [.option "-c" (.config "--quiet") (by decide), .blank]
      command := "check"
      between := []
      file := some "а.bsl"
      after := [.option "--format" (.format .text) (by decide), .stray "б.bsl", .stray "--watch",
        .option "--format" (.format .json) (by decide)]
      command_positional := ⟨by decide, by decide⟩
      file_positional := by
        rintro _ ⟨⟩
        exact ⟨by decide, by decide⟩
      before_strays := by simp [Item.strays, Item.stray?]
      between_strays := by simp [Item.strays]
      after_strays := by
        intro arg harg
        change arg ∈ [Text.ofString "б.bsl", "--watch"] at harg
        rcases List.mem_cons.1 harg with rfl | harg
        · exact .inr ⟨rfl, by decide, by decide⟩
        · obtain rfl := List.mem_singleton.1 harg
          exact .inl ⟨by decide, fun s => by cases s <;> decide⟩ }
  obtain ⟨hclean, hparse, -⟩ := parse_commandLine l
  refine ⟨l, rfl, rfl, ?_⟩
  rw [hparse, hclean]
  decide

end Args

end Gradual
