import Mathlib.Tactic.FinCases
import SlimTS.CommandLine.Classification
import SlimTS.Library.Exclusive
import SlimTS.Library.Sgr
import SlimTS.Macros.Expansion

/-!
# The log

`slim::common::log` writes a line for each message whose level is switched on: a label in the colour
of the level, the line number, the file, the call and the text. The line is put together first and
then written while a mutex is held, so the threads of the program log in any order.

What a line looks like is said in pieces, each a text in a colour or in none, and a terminal shows
just these. As the lines are whole in the output, it shows the messages one after the other
(`shows_log`). The switches are those that the command line has set, in front of the script, so that
it is said of the whole program which messages are seen and how.
-/

namespace SlimTS

open Sgr Transition

/-! ## The switches -/

/-- The levels. -/
inductive LogLevel
  | debug
  | error
  | info
  | trace
  | warn
deriving DecidableEq, Repr

/-- The switches of the log. The command line sets all but that of the colours, which nothing
sets. -/
structure LogSwitches extends LogSettings where
  allowColorPrint : Bool := true
deriving DecidableEq

/-- Whether the messages of a level are printed. -/
def LogSettings.allows (log : LogSettings) : LogLevel → Bool
  | .debug => log.allowDebugPrint
  | .error => log.allowErrorPrint
  | .info => log.allowInfoPrint
  | .trace => log.allowTracePrint
  | .warn => log.allowWarnPrint

/-! ## Colours -/

/-- The keys of `colors`. -/
inductive LogColor
  | black
  | blue
  | cyan
  | green
  | magenta
  | red
  | white
  | yellow
deriving DecidableEq, Repr

/-- `colors`. -/
def LogColor.sequence : LogColor → Str
  | black => "\x1b[0;30m".toList
  | blue => "\x1b[0;34m".toList
  | cyan => "\x1b[0;36m".toList
  | green => "\x1b[0;32m".toList
  | magenta => "\x1b[0;35m".toList
  | red => "\x1b[0;31m".toList
  | white => "\x1b[0;37m".toList
  | yellow => "\x1b[0;33m".toList

/-- `colorize`. -/
def LogSwitches.colorize (log : LogSwitches) (color : LogColor) (input : Str) : Str :=
  if log.allowColorPrint then color.sequence ++ (input ++ "\x1b[0m".toList) else input

/-! ## Lines -/

/-- `field_separator`. -/
def logFieldSeparator : Str := ['|']

/-- The process and the thread that log, as they are printed. -/
structure LogIdentity where
  pid : Str
  threadId : Str
deriving DecidableEq

/-- `get_identifiers`. -/
def LogIdentity.identifiers (identity : LogIdentity) : Str :=
  '[' :: (identity.pid ++ logFieldSeparator ++ identity.threadId ++ [']'])

/-- `Message`. -/
structure Message where
  lineNumber : ℤ
  call : Str
  text : Str
  file : Str
deriving DecidableEq

/-- The label of a level. -/
def LogLevel.label : LogLevel → Str
  | debug => "DEBUG".toList
  | error => "ERROR".toList
  | info => "INFO".toList
  | trace => "TRACE".toList
  | warn => "WARN".toList

/-- The colour of a level. -/
def LogLevel.color : LogLevel → LogColor
  | debug => .yellow
  | error => .red
  | info => .white
  | trace => .cyan
  | warn => .magenta

/-- The colour of the identifiers. -/
def LogLevel.identityColor : LogLevel → LogColor
  | info => .yellow
  | _ => .white

/-- What stands behind a label. -/
def labelEnd : Str := "=>".toList

/-- `construct_label`. -/
def LogSwitches.constructLabel (log : LogSwitches) (identity : LogIdentity) (level : LogLevel) :
    Str :=
  let identityString :=
    if log.allowThreadIdentityPrint then log.colorize level.identityColor identity.identifiers
    else []
  log.colorize level.color level.label ++ identityString ++ log.colorize level.color labelEnd

/-- `std::setw`, with which the next text is shifted to the right. -/
def setw (width : ℕ) (text : Str) : Str := List.replicate (width - text.length) ' ' ++ text

/-- The line that `print` writes. -/
def LogSwitches.line (log : LogSwitches) (label : Str) (message : Message) : Str :=
  label ++ setw (if log.allowColorPrint then 16 else 4)
      (log.colorize .magenta (Macros.decimal message.lineNumber)) ++
    logFieldSeparator ++ log.colorize .magenta message.file ++
    logFieldSeparator ++ log.colorize .green message.call ++
    logFieldSeparator ++ log.colorize .white message.text ++ ['\n']

/-- A call of the log. -/
inductive LogCall
  /-- `debug`, `error`, `info`, `trace` and `warn` of a message. -/
  | message (level : LogLevel) (identity : LogIdentity) (message : Message)
  /-- `info` of a text. -/
  | value (text : Str)
deriving DecidableEq

/-- The call prints. A text is printed whatever the switches are. -/
def LogCall.isPrinted (log : LogSwitches) : LogCall → Bool
  | message level _ _ => log.allows level
  | value _ => true

/-- What it prints. -/
def LogCall.line (log : LogSwitches) : LogCall → Str
  | message level identity m => log.line (log.constructLabel identity level) m
  | value text => text ++ ['\n']

/-! ## Pieces -/

/-- A text in a colour or in none. -/
abbrev LogPiece := Option LogColor × Str

/-- How a piece is written. -/
def LogSwitches.write (log : LogSwitches) : LogPiece → Str
  | (some color, text) => log.colorize color text
  | (none, text) => text

/-- The number of a colour. -/
def LogColor.number : LogColor → ℕ
  | black => 0
  | red => 1
  | green => 2
  | yellow => 3
  | blue => 4
  | magenta => 5
  | cyan => 6
  | white => 7

/-- How a piece should be shown. -/
def LogSwitches.span (log : LogSwitches) : LogPiece → Rendition × Str
  | (some color, text) =>
    (if log.allowColorPrint then { foreground := .named color.number } else {}, text)
  | (none, text) => ({}, text)

/-- The pieces of a label. -/
def LogSwitches.labelPieces (log : LogSwitches) (identity : LogIdentity) (level : LogLevel) :
    List LogPiece :=
  (some level.color, level.label) ::
    ((if log.allowThreadIdentityPrint then [(some level.identityColor, identity.identifiers)]
      else []) ++ [(some level.color, labelEnd)])

/-- The pieces of a message. The number of the line stands at the right of five columns, or of four
where nothing is coloured. -/
def LogSwitches.messagePieces (log : LogSwitches) (m : Message) : List LogPiece :=
  let number := Macros.decimal m.lineNumber
  [(none, List.replicate ((if log.allowColorPrint then 5 else 4) - number.length) ' '),
    (some .magenta, number), (none, logFieldSeparator), (some .magenta, m.file),
    (none, logFieldSeparator), (some .green, m.call), (none, logFieldSeparator),
    (some .white, m.text), (none, ['\n'])]

/-- The pieces of what a call prints. -/
def LogCall.pieces (log : LogSwitches) : LogCall → List LogPiece
  | message level identity m => log.labelPieces identity level ++ log.messagePieces m
  | value text => [(none, text ++ ['\n'])]

/-- What a terminal should show of a call. -/
def LogCall.spans (log : LogSwitches) (call : LogCall) : Spans := (call.pieces log).map log.span

/-- Nothing in the call is an escape character. -/
def LogCall.Plain : LogCall → Prop
  | message _ identity m =>
    escapeChar ∉ identity.pid ∧ escapeChar ∉ identity.threadId ∧ escapeChar ∉ m.file ∧
      escapeChar ∉ m.call ∧ escapeChar ∉ m.text
  | value text => escapeChar ∉ text

instance LogCall.decidablePlain : DecidablePred LogCall.Plain
  | message _ _ _ => inferInstanceAs (Decidable (_ ∧ _ ∧ _ ∧ _ ∧ _))
  | value _ => inferInstanceAs (Decidable (_ ∉ _))

variable {log : LogSwitches} {call : LogCall}

theorem LogColor.sequence_length (color : LogColor) : color.sequence.length = 7 := by
  cases color <;> rfl

/-- The number with its sequences is eleven characters longer than without. -/
theorem setw_number (log : LogSwitches) (number : Str) :
    setw (if log.allowColorPrint then 16 else 4) (log.colorize .magenta number)
      = List.replicate ((if log.allowColorPrint then 5 else 4) - number.length) ' '
        ++ log.colorize .magenta number := by
  have hreset : "\x1b[0m".toList.length = 4 := rfl
  rw [setw, LogSwitches.colorize]
  split_ifs with h
  · rw [List.length_append, List.length_append, LogColor.sequence_length, hreset]
    congr 2
    omega
  · rfl

/-- **A line is its pieces.** -/
theorem LogCall.line_eq (log : LogSwitches) (call : LogCall) :
    call.line log = (call.pieces log).flatMap log.write := by
  cases call with
  | value text => exact (List.flatMap_singleton ..).symm
  | message level identity m =>
    have hlabel : (log.labelPieces identity level).flatMap log.write
        = log.constructLabel identity level := by
      rw [LogSwitches.labelPieces, LogSwitches.constructLabel]
      split_ifs <;> simp [LogSwitches.write]
    rw [pieces, List.flatMap_append, hlabel, line, LogSwitches.line, setw_number]
    simp [LogSwitches.messagePieces, LogSwitches.write]

theorem shows_write {piece : LogPiece} (h : escapeChar ∉ piece.2) :
    Shows (log.write piece) [log.span piece] := by
  obtain ⟨color, text⟩ := piece
  cases color with
  | none => exact .text h
  | some color =>
    rw [LogSwitches.write, LogSwitches.span, LogSwitches.colorize]
    split_ifs
    · refine .framed ?_ h
      cases color <;> rfl
    · exact .text h

theorem shows_pieces {pieces : List LogPiece} (h : ∀ piece ∈ pieces, escapeChar ∉ piece.2) :
    Shows (pieces.flatMap log.write) (pieces.map log.span) := by
  induction pieces with
  | nil => exact .nil
  | cons piece pieces ih =>
    rw [List.forall_mem_cons] at h
    rw [List.flatMap_cons, List.map_cons, ← List.singleton_append]
    exact (shows_write h.1).append (ih h.2)

theorem escapeChar_not_mem_decimal (n : ℤ) : escapeChar ∉ Macros.decimal n := fun h ↦ by
  rcases Macros.isDigit_or_of_mem_decimal h with hc | hc
  · exact absurd hc (by decide)
  · exact absurd hc (by decide)

theorem LogIdentity.escapeChar_not_mem {identity : LogIdentity} (hpid : escapeChar ∉ identity.pid)
    (hthread : escapeChar ∉ identity.threadId) : escapeChar ∉ identity.identifiers := by
  have hopen : escapeChar ≠ '[' := by decide
  have hseparator : escapeChar ∉ logFieldSeparator := by decide
  have hclose : escapeChar ∉ [']'] := by decide
  simp only [identifiers, List.mem_cons, List.mem_append, hopen, hpid, hseparator, hthread,
    or_self, false_or]
  exact fun h ↦ hclose (List.mem_singleton.mpr (h.resolve_right List.not_mem_nil))

/-- Nothing that the log adds is an escape character. -/
theorem LogCall.Plain.pieces (h : call.Plain) :
    ∀ piece ∈ call.pieces log, escapeChar ∉ piece.2 := by
  have hseparator : escapeChar ∉ logFieldSeparator := by decide
  have hline : escapeChar ∉ ['\n'] := by decide
  cases call with
  | value text =>
    rw [LogCall.pieces, List.forall_mem_singleton, List.mem_append, not_or]
    exact ⟨h, hline⟩
  | message level identity m =>
    obtain ⟨hpid, hthread, hfile, hcall, htext⟩ := h
    rw [LogCall.pieces, List.forall_mem_append]
    constructor
    · have hlabel : escapeChar ∉ level.label := by cases level <;> decide
      rw [LogSwitches.labelPieces, List.forall_mem_cons, List.forall_mem_append,
        List.forall_mem_singleton]
      refine ⟨hlabel, ?_, (by decide : escapeChar ∉ labelEnd)⟩
      split_ifs
      · exact List.forall_mem_singleton.mpr (LogIdentity.escapeChar_not_mem hpid hthread)
      · exact List.forall_mem_nil _
    · have hblanks (n : ℕ) : escapeChar ∉ List.replicate n ' ' := fun h ↦
        absurd (List.eq_of_mem_replicate h) (by decide)
      simp only [LogSwitches.messagePieces, List.forall_mem_cons]
      exact ⟨hblanks _, escapeChar_not_mem_decimal _, hseparator, hfile, hseparator, hcall,
        hseparator, htext, hline, List.forall_mem_nil _⟩

/-- **A call shows what it should.** -/
theorem LogCall.Plain.shows_line (h : call.Plain) : Shows (call.line log) (call.spans log) := by
  rw [line_eq]
  exact shows_pieces h.pieces

/-! ## Threads -/

variable {P : Type*} [DecidableEq P]

/-- What a thread does with the log. -/
inductive LogAction (P : Type*)
  | call (p : P) (call : LogCall)
  /-- It takes the mutex. -/
  | lock (p : P)
  /-- It writes a character. -/
  | put (p : P)
  | unlock (p : P)
deriving DecidableEq

/-- What it does with the output. A call that does not print leaves it alone. -/
def LogAction.writing (log : LogSwitches) : LogAction P → Option (Exclusive.Action P LogCall)
  | .call p c => if c.isPrinted log then some (.begin p c) else none
  | .lock p => some (.acquire p)
  | .put p => some (.put p)
  | .unlock p => some (.release p)

/-- The threads and the output after what they do, if it can be done. -/
def runLog (log : LogSwitches) (actions : List (LogAction P)) :
    Option (Exclusive.State P LogCall Char) :=
  runFrom (Exclusive.State.step (LogCall.line log)) .start
    (actions.filterMap (LogAction.writing log))

/-- What a thread asks the log for. -/
def callsOf (p : P) (actions : List (LogAction P)) : List LogCall :=
  actions.filterMap fun
    | .call q c => if q = p then some c else none
    | _ => none

theorem mem_callsOf {p : P} {c : LogCall} {actions : List (LogAction P)} :
    c ∈ callsOf p actions ↔ .call p c ∈ actions := by
  rw [callsOf, List.mem_filterMap]
  constructor
  · rintro ⟨a, ha, hc⟩
    cases a with
    | call q c' =>
      rw [Option.ite_none_right_eq_some, Option.some_inj] at hc
      obtain ⟨rfl, rfl⟩ := hc
      exact ha
    | lock q | put q | unlock q => cases hc
  · exact fun h ↦ ⟨_, h, if_pos rfl⟩

/-- What a thread makes for the output is its calls that print. -/
theorem begun_writing (log : LogSwitches) (p : P) (actions : List (LogAction P)) :
    Exclusive.State.begun p (actions.filterMap (LogAction.writing log))
      = (callsOf p actions).filter (LogCall.isPrinted log) := by
  rw [Exclusive.State.begun, callsOf, List.filterMap_filterMap, List.filter_filterMap]
  refine List.filterMap_congr fun a _ ↦ ?_
  cases a with
  | call q c =>
    by_cases hq : q = p <;> by_cases hc : c.isPrinted log <;>
      simp [LogAction.writing, Option.filter, hq, hc]
  | lock q | put q | unlock q => rfl

/-- **What the log looks like.** However the threads take turns, whenever none of them writes the
terminal shows the messages one after the other, each as it should be, and nothing is selected on
it. The messages of a thread come in its order, and all of them that are to be printed. -/
theorem shows_log {actions : List (LogAction P)} {t : Exclusive.State P LogCall Char}
    (hrun : runLog log actions = some t) (hfree : t.holder = none)
    (hplain : ∀ p c, .call p c ∈ actions → c.Plain) :
    Shows t.output (t.entries.flatMap fun entry ↦ entry.2.spans log) ∧
      ∀ p, t.written p ++ (t.phase p).pending
        = (callsOf p actions).filter (LogCall.isPrinted log) := by
  have hlines (p : P) : t.lines p = (callsOf p actions).filter (LogCall.isPrinted log) := by
    rw [Exclusive.State.lines_of_run hrun, begun_writing]
    rfl
  have hentries : ∀ entry ∈ t.entries, entry.2.Plain := by
    intro entry hentry
    have hmem : entry.2 ∈ t.lines entry.1 :=
      List.mem_append_left _ (List.mem_filterMap.mpr ⟨entry, hentry, if_pos rfl⟩)
    rw [hlines, List.mem_filter, mem_callsOf] at hmem
    exact hplain _ _ hmem.1
  refine ⟨?_, hlines⟩
  rw [Exclusive.State.output_of_run hrun hfree]
  generalize t.entries = entries at hentries
  induction entries with
  | nil => exact .nil
  | cons entry entries ih =>
    rw [List.forall_mem_cons] at hentries
    rw [List.flatMap_cons, List.flatMap_cons]
    exact hentries.1.shows_line.append (ih hentries.2)

/-! ## The command line -/

variable {e : CommandLineEnvironment} {store store' : Store} {arguments : List Str}
  {items : List CommandLineItem} {s : ArgvState}

/-- The argument that switches all levels on. -/
def printAllSwitch : Str := "--print-all".toList

/-- The argument that switches a level on. -/
def LogLevel.switch : LogLevel → Str
  | debug => "--print-debug".toList
  | error => "--print-error".toList
  | info => "--print-info".toList
  | trace => "--print-trace".toList
  | warn => "--print-warn".toList

theorem allows_readSwitch {name : Str} (h : name ∈ slimConfigurations) (settings : LogSettings)
    (level : LogLevel) : (settings.readSwitch name).allows level
      = (name == printAllSwitch || name == level.switch || settings.allows level) := by
  fin_cases h <;> cases level <;> rfl

/-- No argument switches a level off. -/
theorem allows_readItem {item : CommandLineItem} (h : item.Valid e) (level : LogLevel) :
    (s.readItem item).log.allows level = true ↔
      s.log.allows level = true ∨ item = .slim printAllSwitch ∨ item = .slim level.switch := by
  cases item with
  | slim name =>
    rw [ArgvState.readItem, ArgvState.readSlim, allows_readSwitch h, Bool.or_eq_true,
      Bool.or_eq_true, beq_iff_eq, beq_iff_eq, CommandLineItem.slim.injEq,
      CommandLineItem.slim.injEq, or_comm]
  | switch name | valued name value | v8 argument => simp [ArgvState.readItem, ArgvState.configure]

theorem allows_readItems (h : ∀ item ∈ items, item.Valid e) (level : LogLevel) :
    (s.readItems items).log.allows level = true ↔
      s.log.allows level = true ∨ .slim printAllSwitch ∈ items ∨ .slim level.switch ∈ items := by
  induction items generalizing s with
  | nil => simp [ArgvState.readItems]
  | cons item items ih =>
    rw [List.forall_mem_cons] at h
    have hitems := @ih (s.readItem item) h.2
    rw [ArgvState.readItems] at hitems ⊢
    rw [List.foldl_cons, hitems, allows_readItem h.1, List.mem_cons, List.mem_cons]
    tauto

/-- **Which messages are printed**: the errors, and those of a level that an argument in front of
the script asks for. -/
theorem allows_of_readArguments {r : Reading} (hr : r.Of e arguments) (hleaves : r.Leaves e s)
    (level : LogLevel) : s.log.allows level = true ↔
      level = .error ∨ .slim printAllSwitch ∈ r.items ∨ .slim level.switch ∈ r.items := by
  have hstart : (ArgvState.start e).log.allows level = true ↔ level = .error := by
    cases level <;> simp [ArgvState.start, LogSettings.allows]
  rw [hleaves.log, allows_readItems hr.valid, hstart]

/-- **The log of the program.** -/
theorem shows_log_of_setArgv (hset : setArgv e store arguments = .ok (s, store'))
    {actions : List (LogAction P)} {t : Exclusive.State P LogCall Char}
    (hrun : runLog { s.log with } actions = some t) (hfree : t.holder = none)
    (hplain : ∀ p c, .call p c ∈ actions → c.Plain) :
    ∃ r : Reading, r.Of e arguments ∧
      (∀ level, s.log.allows level = true ↔
        level = .error ∨ .slim printAllSwitch ∈ r.items ∨ .slim level.switch ∈ r.items) ∧
      Shows t.output (t.entries.flatMap fun entry ↦ entry.2.spans { s.log with }) ∧
      ∀ p, t.written p ++ (t.phase p).pending
        = (callsOf p actions).filter (LogCall.isPrinted { s.log with }) := by
  obtain ⟨t', hread, h⟩ := bind_eq_ok hset
  rcases reads_or_fails e arguments with ⟨r, hr⟩ | hdangling | hempty
  · obtain ⟨s', hread', hleaves⟩ := hr.readArguments
    obtain rfl := Except.ok.inj (hread.symm.trans hread')
    obtain ⟨rfl, -⟩ := Prod.mk.inj (Except.ok.inj h)
    exact ⟨r, hr, allows_of_readArguments hr hleaves, shows_log hrun hfree hplain⟩
  · cases hread.symm.trans hdangling.readArguments
  · cases hread.symm.trans hempty.readArguments

/-! ## Two threads -/

/-- A script, and the messages of one level. -/
def debugArguments : List Str := ["--print-debug".toList, "a.js".toList]

/-- One thread has a message to print when the other prints a text, and it makes one that is not
printed. -/
def twoThreads : List (LogAction Bool) :=
  .call false (.message .debug ⟨['1'], ['2']⟩ ⟨7, ['c'], ['t'], ['f']⟩) ::
  .call true (.value ['v']) ::
  .lock true :: .put true ::
  .call false (.message .info ⟨['1'], ['2']⟩ ⟨8, ['c'], ['u'], ['f']⟩) ::
  .put true :: .unlock true ::
  .lock false :: (List.replicate 85 (.put false) ++ [.unlock false])

set_option maxRecDepth 4000 in
theorem shows_log_of_setArgv_twoThreads :
    ∃ s store' t, setArgv homeEnvironment emptyStore debugArguments = .ok (s, store') ∧
      runLog { s.log with } twoThreads = some t ∧ t.holder = none ∧
      ∃ r : Reading, r.Of homeEnvironment debugArguments ∧
        (∀ level, s.log.allows level = true ↔
          level = .error ∨ .slim printAllSwitch ∈ r.items ∨ .slim level.switch ∈ r.items) ∧
        Shows t.output (t.entries.flatMap fun entry ↦ entry.2.spans { s.log with }) ∧
        ∀ p, t.written p ++ (t.phase p).pending
          = (callsOf p twoThreads).filter (LogCall.isPrinted { s.log with }) := by
  have hplain : ∀ p c, .call p c ∈ twoThreads → c.Plain := by
    intro p c h
    have hcalls : ∀ p, ∀ c ∈ callsOf p twoThreads, c.Plain := by
      intro p
      cases p <;> decide
    exact hcalls p c (mem_callsOf.mpr h)
  exact ⟨_, _, _, rfl, rfl, rfl,
    @shows_log_of_setArgv _ _ homeEnvironment emptyStore _ debugArguments _ rfl twoThreads _ rfl rfl
      hplain⟩

end SlimTS
