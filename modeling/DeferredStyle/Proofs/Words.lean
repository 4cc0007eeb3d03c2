import DeferredStyle.CommandLine.Arguments
import DeferredStyle.Proofs.Results
import Mathlib.Data.List.Induction

/-!
# The words of a command line

Arguments are read one after the other, and what was read last is looked at later.  The words of
arguments are their options with their values, the flag of the stylesheet command and the operands.
A side of the command is read as if each word were looked at where it stands.

* `words` — the words of arguments.
* `Side.settle_eq_ok_iff` — what is pending is looked at as a word.
* `Steps` — what reading one argument does; `steps_addLong`, `steps_addOperand`, `steps_value`, for
  each kind of argument.
* `reads_words` — reading arguments and looking at what is pending in the end is looking at their
  words.
-/

set_option autoImplicit false

namespace DeferredStyle.CommandLine

/-! ## Words -/

/-- An option with its value, the flag of the stylesheet command, or an operand. -/
inductive Word where
  | option (name : OptionName) (text : String)
  | strict
  | operand (text : String)
  deriving DecidableEq

/-- The words of arguments behind an option that waits for its value, if there is one.  Behind the
separator all are operands, and nothing is read behind an argument that means nothing. -/
def wordsBehind : Option OptionName → List String → List Word
  | _, [] => []
  | some name, text :: rest => .option name text :: wordsBehind none rest
  | none, text :: rest =>
    match Form.of text with
    | .separator => rest.map .operand
    | .operand text => .operand text :: wordsBehind none rest
    | .short _ => []
    | .long long value =>
      match OptionName.ofLong? long, value with
      | some name, some value => .option name value :: wordsBehind none rest
      | some name, none => wordsBehind (some name) rest
      | none, _ => .strict :: wordsBehind none rest

/-- The words of arguments. -/
def words (arguments : List String) : List Word := wordsBehind none arguments

/-- The values that an option is used with. -/
def uses (name : OptionName) (ws : List Word) : List String :=
  ws.filterMap fun
    | .option used text => if used = name then some text else none
    | _ => none

/-- The operands among words. -/
def operands (ws : List Word) : List String :=
  ws.filterMap fun
    | .operand text => some text
    | _ => none

theorem uses_append (name : OptionName) (ws ws' : List Word) :
    uses name (ws ++ ws') = uses name ws ++ uses name ws' :=
  List.filterMap_append

theorem operands_append (ws ws' : List Word) : operands (ws ++ ws') = operands ws ++ operands ws' :=
  List.filterMap_append

/-! ## Sides -/

/-- The side with nothing pending. -/
def Side.cleared (side : Side) : Side := { side with pending := .nothing }

/-- The side after a word that is looked at where it stands. -/
def Side.read (side : Side) : Word → Except UsageError Side
  | .option name text => side.setOption name text
  | .strict => side.setStrict
  | .operand text => (side.stage.addOperand text).map fun stage => { side with stage }

/-- The side after words. -/
def Side.readAll (side : Side) (ws : List Word) : Except UsageError Side :=
  ws.foldlM Side.read side

/-- The word that is pending. -/
def Pending.word? : Pending → Option Word
  | .option name (some text) => some (.option name text)
  | .operand text => some (.operand text)
  | _ => none

/-- The option that waits for its value. -/
def Pending.waiting? : Pending → Option OptionName
  | .option name none => some name
  | _ => none

/-- The word that is pending and those of the arguments behind it. -/
def Pending.words (pending : Pending) (arguments : List String) : List Word :=
  pending.word?.toList ++ wordsBehind pending.waiting? arguments

/-- The name of the command that has been named. -/
def Stage.name? : Stage → Option String
  | .start => none
  | .stylesheet _ _ _ => some "stylesheet"
  | .value _ => some "value"

theorem Stage.name?_eq_none_iff {stage : Stage} : stage.name? = none ↔ stage = .start := by
  cases stage <;> simp [name?]

theorem Stage.name?_of_ofCommand? {name : String} {stage : Stage}
    (h : Stage.ofCommand? name = some stage) : stage.name? = some name := by
  unfold ofCommand? at h
  split at h <;> cases h <;> rfl

section Sides

variable {side settled : Side}

theorem Side.readAll_append {ws ws' : List Word} {result : Side} :
    side.readAll (ws ++ ws') = .ok result ↔
      ∃ middle, side.readAll ws = .ok middle ∧ middle.readAll ws' = .ok result := by
  rw [readAll, List.foldlM_append]
  exact bind_eq_ok_iff

theorem Side.readAll_singleton (w : Word) : side.readAll [w] = side.read w := by
  rw [readAll, List.foldlM_cons]
  exact bind_pure _

/-- What holds of a side and is kept by every word holds after all words. -/
theorem Side.readAll_invariant {P : List Word → Side → Prop} {ws : List Word} {final : Side}
    (h : side.readAll ws = .ok final) (hstart : P [] side)
    (hstep : ∀ front w middle next, P front middle → middle.read w = .ok next →
      P (front ++ [w]) next) : P ws final := by
  induction ws using List.reverseRecOn generalizing final with
  | nil =>
    cases h
    exact hstart
  | append_singleton ws w ih =>
    obtain ⟨middle, hws, hw⟩ := readAll_append.mp h
    rw [readAll_singleton] at hw
    exact hstep ws w middle final (ih hws) hw

theorem Side.pending_setOption {name : OptionName} {text : String} {result : Side}
    (h : side.setOption name text = .ok result) : result.pending = side.pending := by
  cases name with
  | general option =>
    obtain ⟨options, -, rfl⟩ := map_eq_ok_iff.mp h
    rfl
  | className =>
    cases h
    rfl

theorem Side.pending_setStrict {result : Side} (h : side.setStrict = .ok result) :
    result.pending = side.pending := by
  unfold setStrict at h
  split at h <;> cases h
  rfl

/-- **Settling** is looking at the word that is pending; no option may be waiting. -/
theorem Side.settle_eq_ok_iff :
    side.settle = .ok settled ↔
      side.pending.waiting? = none ∧
        side.cleared.readAll side.pending.word?.toList = .ok settled := by
  obtain ⟨options, stage, pending⟩ := side
  cases pending with
  | nothing => exact ⟨fun h => ⟨rfl, h⟩, And.right⟩
  | operand text =>
    rw [Pending.word?, Option.toList_some, readAll_singleton]
    exact ⟨fun h => ⟨rfl, h⟩, And.right⟩
  | option name text =>
    cases text with
    | none => exact ⟨nofun, fun h => nomatch h.1⟩
    | some text =>
      rw [Pending.word?, Option.toList_some, readAll_singleton]
      exact ⟨fun h => ⟨rfl, h⟩, And.right⟩

theorem Side.pending_read {w : Word} {result : Side} (h : side.read w = .ok result) :
    result.pending = side.pending := by
  cases w with
  | option name text => exact pending_setOption h
  | strict => exact pending_setStrict h
  | operand text =>
    obtain ⟨stage, -, rfl⟩ := map_eq_ok_iff.mp h
    rfl

theorem Side.pending_readAll {ws : List Word} {final : Side} (h : side.readAll ws = .ok final) :
    final.pending = side.pending :=
  readAll_invariant (P := fun _ middle => middle.pending = side.pending) h rfl
    fun _ _ _ _ hmiddle hw => (pending_read hw).trans hmiddle

theorem Stage.name?_addOperand {stage next : Stage} {text : String}
    (h : stage.addOperand text = .ok next) : next.name? = stage.name? := by
  unfold addOperand at h
  split at h
  · cases h
    rfl
  · obtain ⟨file, -, rfl⟩ := map_eq_ok_iff.mp h
    rfl
  · cases h
    rfl
  · obtain ⟨file, -, rfl⟩ := map_eq_ok_iff.mp h
    rfl

theorem Side.name?_read {w : Word} {result : Side} (h : side.read w = .ok result) :
    result.stage.name? = side.stage.name? := by
  cases w with
  | option name text =>
    cases name with
    | general option =>
      obtain ⟨options, -, rfl⟩ := map_eq_ok_iff.mp h
      rfl
    | className =>
      cases h
      cases hstage : side.stage <;> rfl
  | strict =>
    rw [read, setStrict] at h
    split at h
    · rename_i hstage
      cases h
      rw [hstage]
      rfl
    · cases h
  | operand text =>
    obtain ⟨stage, hstage, rfl⟩ := map_eq_ok_iff.mp h
    exact Stage.name?_addOperand hstage

/-- The command stays the same, whatever words are looked at. -/
theorem Side.name?_readAll {ws : List Word} {final : Side} (h : side.readAll ws = .ok final) :
    final.stage.name? = side.stage.name? :=
  readAll_invariant (P := fun _ middle => middle.stage.name? = side.stage.name?) h rfl
    fun _ _ _ _ hmiddle hw => (name?_read hw).trans hmiddle

theorem Side.stage_readAll {ws : List Word} {result : Side} (h : side.readAll ws = .ok result) :
    result.stage = .start ↔ side.stage = .start := by
  rw [← Stage.name?_eq_none_iff, ← Stage.name?_eq_none_iff, name?_readAll h]

end Sides

/-! ## Reading arguments -/

/-- One side of the command with what is pending in front of the arguments is left for another: the
words between them have been looked at.  In front of the command they are no operands. -/
structure Steps (side : Side) (arguments : List String) (next : Side) (rest : List String)
    (ws : List Word) : Prop where
  words : side.pending.words arguments = ws ++ next.pending.words rest
  read : side.cleared.readAll ws = .ok next.cleared
  front : side.stage = .start → operands side.pending.word?.toList = [] →
    operands ws = [] ∧ operands next.pending.word?.toList = []

section Steps

variable {side settled next : Side} {rest : List String}

theorem Side.pending_of_settle (h : side.settle = .ok settled) : settled.pending = .nothing := by
  obtain ⟨-, hread⟩ := settle_eq_ok_iff.mp h
  exact pending_readAll hread

theorem Side.cleared_of_settled (h : side.pending = .nothing) : side.cleared = side := by
  rw [cleared, ← h]

theorem Pending.words_of_settled (h : side.pending = .nothing) (arguments : List String) :
    side.pending.words arguments = wordsBehind none arguments := by
  rw [h]
  rfl

theorem Form.eq_of_operand {text shown : String} (h : Form.of text = .operand shown) :
    shown = text := by
  unfold Form.of at h
  repeat' split at h
  all_goals cases h
  rfl

/-- What is pending is looked at first. -/
theorem steps_of_settle {arguments : List String} (ws : List Word)
    (hsettle : side.settle = .ok settled)
    (hwords : wordsBehind none arguments = ws ++ next.pending.words rest)
    (hread : settled.readAll ws = .ok next.cleared)
    (hfront : side.stage = .start → operands ws = [] ∧ operands next.pending.word?.toList = []) :
    Steps side arguments next rest (side.pending.word?.toList ++ ws) := by
  obtain ⟨hwaiting, hpending⟩ := Side.settle_eq_ok_iff.mp hsettle
  constructor
  · rw [Pending.words, hwaiting, hwords, List.append_assoc]
  · exact Side.readAll_append.mpr ⟨settled, hpending, hread⟩
  · intro hstart hnone
    obtain ⟨hws, hnext⟩ := hfront hstart
    rw [operands_append, hnone, hws]
    exact ⟨rfl, hnext⟩

/-- One more word behind what is pending, which is no operand. -/
theorem steps_of_word {arguments : List String} {w : Word} (hsettle : side.settle = .ok settled)
    (hwords : wordsBehind none arguments = w :: wordsBehind none rest)
    (hread : settled.read w = .ok next) (hoption : operands [w] = []) :
    Steps side arguments next rest (side.pending.word?.toList ++ [w]) := by
  have hpending : next.pending = .nothing :=
    (Side.pending_read hread).trans (Side.pending_of_settle hsettle)
  refine steps_of_settle [w] hsettle ?_ ?_ fun _ => ⟨hoption, ?_⟩
  · rw [Pending.words_of_settled hpending, hwords]
    rfl
  · rw [Side.cleared_of_settled hpending, Side.readAll_singleton, hread]
  · rw [hpending]
    rfl

theorem Stage.ofLong?_of_longName (stage : Stage) (long : String) :
    (∀ name, stage.longName long = .valued name → OptionName.ofLong? long = some name) ∧
      (stage.longName long = .strict → OptionName.ofLong? long = none) := by
  unfold longName
  cases OptionName.ofLong? long with
  | none =>
    cases stage with
    | stylesheet operands classes strict => by_cases h : long = "strict" <;> simp [h]
    | _ => simp
  | some name => cases name <;> cases stage <;> simp

/-- An option, or the flag, behind what is pending. -/
theorem steps_addLong {text long : String} {value : Option String}
    (htext : Form.of text = .long long value) (h : side.addLong long value = .ok next) :
    ∃ ws, Steps side (text :: rest) next rest ws := by
  obtain ⟨hvalued, hstrict⟩ := side.stage.ofLong?_of_longName long
  unfold Side.addLong at h
  split at h
  · cases h
  · cases h
  · rename_i hname
    obtain ⟨settled, hsettle, hset⟩ := bind_eq_ok_iff.mp h
    have hwords : wordsBehind none (text :: rest) = .strict :: wordsBehind none rest := by
      simp only [wordsBehind, htext, hstrict hname]
    exact ⟨_, steps_of_word hsettle hwords hset rfl⟩
  · rename_i name value hname
    obtain ⟨settled, hsettle, hset⟩ := bind_eq_ok_iff.mp h
    have hwords :
        wordsBehind none (text :: rest) = .option name value :: wordsBehind none rest := by
      simp only [wordsBehind, htext, hvalued name hname]
    exact ⟨_, steps_of_word hsettle hwords hset rfl⟩
  · -- the option waits for its value
    rename_i name hname
    obtain ⟨settled, hsettle, rfl⟩ := map_eq_ok_iff.mp h
    have hwords : wordsBehind none (text :: rest) = wordsBehind (some name) rest := by
      simp only [wordsBehind, htext, hvalued name hname]
    have hcleared := Side.cleared_of_settled (Side.pending_of_settle hsettle)
    exact ⟨_, steps_of_settle [] hsettle hwords (congrArg _ hcleared.symm)
      fun _ => ⟨rfl, rfl⟩⟩

theorem Side.addOperand_eq_ok {text : String} (h : side.addOperand text = .ok next) :
    side.stage ≠ .start ∧
      ∃ settled, side.settle = .ok settled ∧ next = { settled with pending := .operand text } := by
  have hopen : ¬side.stage.openOperands ≤ (if side.pending.isOperand then 1 else 0) := by
    intro hfull
    rw [addOperand, if_pos hfull] at h
    cases h
  rw [addOperand, if_neg hopen] at h
  obtain ⟨settled, hsettle, rfl⟩ := map_eq_ok_iff.mp h
  refine ⟨fun hstart => hopen ?_, settled, hsettle, rfl⟩
  rw [hstart]
  exact Nat.zero_le _

/-- An operand behind what is pending. -/
theorem steps_addOperand {text : String} (htext : Form.of text = .operand text)
    (h : side.addOperand text = .ok next) : ∃ ws, Steps side (text :: rest) next rest ws := by
  obtain ⟨hstage, settled, hsettle, rfl⟩ := Side.addOperand_eq_ok h
  have hwords : wordsBehind none (text :: rest) = .operand text :: wordsBehind none rest := by
    simp only [wordsBehind, htext]
  have hcleared := Side.cleared_of_settled (Side.pending_of_settle hsettle)
  exact ⟨_, steps_of_settle [] hsettle hwords (congrArg _ hcleared.symm)
    fun hstart => absurd hstart hstage⟩

/-- The value of the option that waits for it. -/
theorem steps_value {text : String} {name : OptionName}
    (hwaiting : side.pending = .option name none) :
    Steps side (text :: rest) { side with pending := .option name (some text) } rest [] := by
  constructor
  · rw [hwaiting]
    rfl
  · rfl
  · exact fun _ _ => ⟨rfl, rfl⟩

end Steps

/-- Where reading stopped: at the end of the arguments, or at the name of a command. -/
inductive StopsAt : Option (Stage × List String) → List Word → Prop
  | finish : StopsAt none []
  | command {name : String} {stage : Stage} (rest : List String)
      (h : Stage.ofCommand? name = some stage) :
      StopsAt (some (stage, rest)) (.operand name :: words rest)

/-- Words are looked at up to where reading stopped.  In front of the command they are no operands,
and behind it there is no other command. -/
def Side.Looks (side : Side) (ws : List Word) (command : Option (Stage × List String))
    (final : Side) : Prop :=
  ∃ front rest, ws = front ++ rest ∧ side.readAll front = .ok final ∧ StopsAt command rest ∧
    (side.stage = .start → operands front = []) ∧ (side.stage ≠ .start → command = none)

theorem Steps.looks {side next final : Side} {arguments rest : List String} {ws : List Word}
    {command : Option (Stage × List String)} (h : Steps side arguments next rest ws)
    (hfront : side.stage = .start → operands side.pending.word?.toList = [])
    (hlooks : next.cleared.Looks (next.pending.words rest) command final) :
    side.cleared.Looks (side.pending.words arguments) command final := by
  obtain ⟨front, behind, hwords, hread, hstops, hoptions, hcommand⟩ := hlooks
  have hstage := Side.stage_readAll h.read
  refine ⟨ws ++ front, behind, ?_, Side.readAll_append.mpr ⟨_, h.read, hread⟩, hstops, ?_,
    fun hside => hcommand fun hnext => hside (hstage.mp hnext)⟩
  · rw [h.words, hwords, List.append_assoc]
  · intro hstart
    obtain ⟨hws, -⟩ := h.front hstart (hfront hstart)
    rw [operands_append, hws, hoptions (hstage.mpr hstart)]
    rfl

/-- Reading stops here. -/
theorem Side.looks_of_settle {side final : Side} {command : Option (Stage × List String)}
    {ws : List Word} (hfinal : side.settle = .ok final) (hstops : StopsAt command ws)
    (hfront : side.stage = .start → operands side.pending.word?.toList = [])
    (hcommand : side.stage ≠ .start → command = none) :
    side.cleared.Looks (side.pending.word?.toList ++ ws) command final :=
  ⟨_, ws, rfl, (settle_eq_ok_iff.mp hfinal).2, hstops, hfront, hcommand⟩

/-- The operands behind the separator. -/
theorem readAll_of_readOperands {side final : Side} {arguments : List String} {reached : Reached}
    (h : readOperands side arguments = .ok reached) (hfinal : reached.side.settle = .ok final) :
    reached.command = none ∧ side.pending.waiting? = none ∧
      side.cleared.readAll (side.pending.word?.toList ++ arguments.map .operand) = .ok final ∧
      (side.stage = .start → arguments = []) := by
  induction arguments generalizing side with
  | nil =>
    cases h
    obtain ⟨hwaiting, hread⟩ := Side.settle_eq_ok_iff.mp hfinal
    rw [List.map_nil, List.append_nil]
    exact ⟨rfl, hwaiting, hread, fun _ => rfl⟩
  | cons text rest ih =>
    have hadded :
        ∃ next, side.addOperand text = .ok next ∧ readOperands next rest = .ok reached := by
      unfold readOperands at h
      repeat' split at h
      all_goals first | cases h | exact ⟨_, ‹_›, h⟩
    obtain ⟨next, hnext, hrest⟩ := hadded
    obtain ⟨hstage, settled, hsettle, rfl⟩ := Side.addOperand_eq_ok hnext
    obtain ⟨hcommand, -, hread, -⟩ := ih hrest
    obtain ⟨hwaiting, hpending⟩ := Side.settle_eq_ok_iff.mp hsettle
    have hcleared := Side.cleared_of_settled (Side.pending_of_settle hsettle)
    refine ⟨hcommand, hwaiting, Side.readAll_append.mpr ⟨settled, hpending, ?_⟩,
      fun hstart => absurd hstart hstage⟩
    rw [← hcleared]
    exact hread

/-- **Arguments are read word by word.** -/
theorem reads_words {side final : Side} {arguments : List String} {reached : Reached}
    (h : readArguments side arguments = .ok reached) (hfinal : reached.side.settle = .ok final)
    (hfront : side.stage = .start → operands side.pending.word?.toList = []) :
    side.cleared.Looks (side.pending.words arguments) reached.command final := by
  induction arguments generalizing side with
  | nil =>
    cases h
    have hlooks := Side.looks_of_settle hfinal .finish hfront fun _ => rfl
    obtain ⟨hwaiting, -⟩ := Side.settle_eq_ok_iff.mp hfinal
    rw [Pending.words, hwaiting]
    exact hlooks
  | cons text rest ih =>
    have hstep {next : Side} {ws : List Word} (hsteps : Steps side (text :: rest) next rest ws)
        (hnext : readArguments next rest = .ok reached) :
        side.cleared.Looks (side.pending.words (text :: rest)) reached.command final := by
      refine hsteps.looks hfront (ih hnext fun hstart => ?_)
      have hside := (Side.stage_readAll hsteps.read).mp hstart
      exact (hsteps.front hside (hfront hside)).2
    rw [readArguments] at h
    split at h
    · -- the separator
      rename_i htext
      obtain ⟨hcommand, hwaiting, hread, hstart⟩ := readAll_of_readOperands h hfinal
      rw [Pending.words, hwaiting, hcommand]
      have hwords : wordsBehind none (text :: rest) = rest.map .operand := by
        simp only [wordsBehind, htext]
      rw [hwords]
      refine ⟨_, [], (List.append_nil _).symm, hread, .finish, fun hstage => ?_, fun _ => rfl⟩
      rw [hstart hstage, List.map_nil, List.append_nil]
      exact hfront hstage
    · cases h
    · -- an option or the flag
      rename_i long value htext
      split at h
      · cases h
      · rename_i next hadded
        obtain ⟨ws, hsteps⟩ := steps_addLong htext hadded
        exact hstep hsteps h
    · -- an operand by its form
      rename_i text' htext
      obtain rfl := Form.eq_of_operand htext
      split at h
      · rename_i name hpending
        exact hstep (steps_value hpending) h
      · rename_i hstart _
        split at h
        · rename_i stage hstage
          cases h
          have hlooks := Side.looks_of_settle hfinal (.command rest hstage) hfront
            fun hside => absurd hstart hside
          obtain ⟨hnone, -⟩ := Side.settle_eq_ok_iff.mp hfinal
          have hwords : wordsBehind none (text' :: rest) = .operand text' :: words rest := by
            simp only [wordsBehind, htext, words]
          rw [Pending.words, hnone, hwords]
          exact hlooks
        · cases h
      · split at h
        · cases h
        · rename_i next hadded
          obtain ⟨ws, hsteps⟩ := steps_addOperand htext hadded
          exact hstep hsteps h

end DeferredStyle.CommandLine
