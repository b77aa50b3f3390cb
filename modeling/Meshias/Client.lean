import Meshias.Commands

/-!
# The client

`meshias-tools.c`: the menu, the loop that reads commands from a terminal, and what is sent for each.

* `COMMANDS`, `menuRequest` — the menu, and what it promises for a command.
* `getCommand`, `sendCommand` — one command read, and its message.
* `clientSession` — the messages of a session.
* `Typed` — a command that a user can mean.

Principal result: `session_understood` — after its first character, which is lost, a session is
understood by the daemon as the menu has it.
-/

set_option autoImplicit false

namespace Meshias

open CString (ascii)

/-! ## The menu -/

def COMMANDS : List (List U8 × List U8) :=
  [(text "0", MSG_HELP), (text "1", MSG_QUIT), (text "2", MSG_KILL), (text "3", MSG_RESTART),
    (text "4", MSG_SHOW_ROUTES), (text "5", MSG_SHOW_STATISTICS),
    (text "6", MSG_CLEAN_STATISTICS)]

def checkCommand (command : List U8) : Bool :=
  COMMANDS.any fun e => startsWith command e.1 || startsWith command e.2

def isHelpCommand (command : List U8) : Bool :=
  startsWith command MSG_HELP || startsWith command (text "0")

def isQuitCommand (command : List U8) : Bool :=
  startsWith command MSG_QUIT || startsWith command (text "1")

/-- The number of a request in the menu. -/
def ControlRequest.number : ControlRequest → List U8
  | .kill => text "2"
  | .restart => text "3"
  | .showRoutes => text "4"
  | .showStatistics => text "5"
  | .cleanStatistics => text "6"

/-- What the menu promises: a command is a number or a name. -/
def menuRequest (command : List U8) : Option ControlRequest :=
  [.kill, .restart, .showRoutes, .showStatistics, .cleanStatistics].find?
    fun r => startsWith command r.number || startsWith command r.message

/-! ## One command -/

/-- A text as the format of `snprintf`, with no arguments behind it. -/
def formatted : List U8 → Option (List U8)
  | [] => some []
  | [b] => if b = ascii '%' then none else some [b]
  | b :: c :: rest =>
    if b = ascii '%' then
      if c = ascii '%' then (formatted rest).map (b :: ·) else none
    else (formatted (c :: rest)).map (b :: ·)

/-- What is sent: for a number the name, and else the command, either as a format. -/
def sendCommand (command : List U8) : Option (List U8) :=
  match COMMANDS.find? fun e => startsWith command e.1 with
  | some e => formatted e.2
  | none => formatted command

def command_SIZE : Nat := 128

/-- `isspace`. -/
def isSpace (b : U8) : Bool := b = ascii ' ' || (9 ≤ b.toNat && b.toNat ≤ 13)

/-- The word that `scanf("%s")` reads, and what it leaves. -/
def scanWord (input : List U8) : List U8 × List U8 :=
  (input.dropWhile isSpace).span (fun b => !isSpace b)

theorem length_scanWord (input : List U8) : (scanWord input).2.length ≤ input.length := by
  rw [scanWord, List.span_eq_takeWhile_dropWhile]
  exact ((List.dropWhile_suffix _).trans (List.dropWhile_suffix _)).length_le

/-- `get_command`: in each turn `getchar` takes one character in front of the word.  At the end of the
    input it asks for ever, and a word of 128 characters is written over the end of `command`. -/
def getCommand : List U8 → Option (List U8 × List U8)
  | [] => none
  | _ :: input =>
    let scan := scanWord input
    let command := scan.1.takeWhile (· ≠ 0)
    if command_SIZE ≤ scan.1.length then none
    else if checkCommand command then some (command, scan.2)
    else getCommand scan.2
termination_by input => input.length
decreasing_by exact Nat.lt_succ_of_le (length_scanWord input)

theorem length_getCommand {input rest command : List U8}
    (h : getCommand input = some (command, rest)) : rest.length < input.length := by
  induction input using getCommand.induct with
  | case1 =>
    rw [getCommand] at h
    cases h
  | case2 b input scan hlong =>
    rw [getCommand, if_pos hlong] at h
    cases h
  | case3 b input scan command' hshort hcheck =>
    rw [getCommand, if_neg hshort, if_pos hcheck] at h
    cases h
    exact Nat.lt_succ_of_le (length_scanWord input)
  | case4 b input scan command' hshort hcheck ih =>
    rw [getCommand, if_neg hshort, if_neg hcheck] at h
    exact (ih h).trans (Nat.lt_succ_of_le (length_scanWord input))

/-- The messages of a session, up to `quit`, to the end of the input, or to a command that is too long
    or has a conversion in it. -/
def clientSession (input : List U8) : List (List U8) :=
  match _hread : getCommand input with
  | none => []
  | some (command, rest) =>
    if isHelpCommand command then clientSession rest
    else if isQuitCommand command then []
    else
      match sendCommand command with
      | none => []
      | some message => message :: clientSession rest
termination_by input.length
decreasing_by all_goals exact length_getCommand _hread

/-! ## What the menu promises -/

/-- The numbers and the names. -/
def menuTexts : List (List U8) := COMMANDS.map Prod.fst ++ COMMANDS.map Prod.snd

/-- No text of the menu begins another one. -/
theorem menuTexts_apart : ∀ a ∈ menuTexts, ∀ b ∈ menuTexts, startsWith a b = decide (b = a) := by
  decide

/-- **A command begins with at most one text of the menu.** -/
theorem startsWith_menu {command a b : List U8} (hcommand : startsWith command a = true)
    (ha : a ∈ menuTexts) (hb : b ∈ menuTexts) : startsWith command b = decide (b = a) := by
  by_cases hba : b = a
  · rw [hba, hcommand, decide_eq_true rfl]
  · rw [decide_eq_false hba, ← Bool.not_eq_true]
    intro hother
    have hprea : a <+: command := List.isPrefixOf_iff_prefix.1 hcommand
    have hpreb : b <+: command := List.isPrefixOf_iff_prefix.1 hother
    rcases List.prefix_or_prefix_of_prefix hpreb hprea with hpre | hpre
    · have hstart := menuTexts_apart a ha b hb
      rw [decide_eq_false hba, startsWith, List.isPrefixOf_iff_prefix.2 hpre] at hstart
      cases hstart
    · have hstart := menuTexts_apart b hb a ha
      rw [decide_eq_false (Ne.symm hba), startsWith, List.isPrefixOf_iff_prefix.2 hpre] at hstart
      cases hstart

def controlRequests : List ControlRequest :=
  [.kill, .restart, .showRoutes, .showStatistics, .cleanStatistics]

/-- **The menu and the daemon agree** on its texts: a number is replaced by a name that asks for the
    same, and a name is left alone. -/
theorem menu_agrees : ∀ a ∈ menuTexts, a ∉ [MSG_HELP, text "0", MSG_QUIT, text "1"] →
    (controlRequests.find? fun r => decide (r.number = a) || decide (r.message = a)).isSome = true ∧
      ((∃ e ∈ COMMANDS.find? (fun e => decide (e.1 = a)), requestOf e.2 =
          controlRequests.find? fun r => decide (r.number = a) || decide (r.message = a)) ∨
        COMMANDS.find? (fun e => decide (e.1 = a)) = none ∧
          controlRequests.find? (fun r => decide (r.message = a)) =
            controlRequests.find? fun r => decide (r.number = a) || decide (r.message = a)) := by
  decide

theorem plain_names : ∀ e ∈ COMMANDS, ascii '%' ∉ e.2 ∧ e.2.length < 128 ∧ 0 ∉ e.2 := by decide

/-- A text that has no conversion in it stays as it is. -/
theorem formatted_of_free {l : List U8} (hfree : ascii '%' ∉ l) : formatted l = some l := by
  induction l with
  | nil => rfl
  | cons b rest ih =>
    have hb : b ≠ ascii '%' := fun h => hfree (h ▸ List.mem_cons_self)
    have hrest : ascii '%' ∉ rest := fun h => hfree (List.mem_cons_of_mem b h)
    cases rest with
    | nil => rw [formatted, if_neg hb]
    | cons c rest =>
      rw [formatted, if_neg hb, ih hrest]
      rfl

/-- A command that a user can mean: a word that is on the menu, short enough and without a
    conversion. -/
structure Typed (word : List U8) : Prop where
  unspaced : ∀ b ∈ word, isSpace b = false
  free : 0 ∉ word ∧ ascii '%' ∉ word
  short : word.length < command_SIZE
  check : checkCommand word = true

variable {word : List U8}

/-- **One command**: what is sent for it is understood as the menu has it, unless it is `help` or
    `quit`. -/
theorem sendCommand_understood (h : Typed word) (hhelp : isHelpCommand word = false)
    (hquit : isQuitCommand word = false) : ∃ message, sendCommand word = some message ∧
      requestOf message = menuRequest word ∧ (menuRequest word).isSome = true ∧
      message.length < 128 ∧ 0 ∉ message := by
  -- the text of the menu that it begins with
  obtain ⟨a, ha, hstart⟩ : ∃ a ∈ menuTexts, startsWith word a = true := by
    obtain ⟨e, he, hor⟩ := List.any_eq_true.1 h.check
    rcases Bool.or_eq_true_iff.1 hor with hnumber | hname
    · exact ⟨e.1, List.mem_append_left _ (List.mem_map_of_mem he), hnumber⟩
    · exact ⟨e.2, List.mem_append_right _ (List.mem_map_of_mem he), hname⟩
  have honly : ∀ b ∈ menuTexts, startsWith word b = decide (b = a) := fun b hb =>
    startsWith_menu hstart ha hb
  have hother : a ∉ [MSG_HELP, text "0", MSG_QUIT, text "1"] := by
    intro hmem
    obtain ⟨hname, hnumber⟩ := Bool.or_eq_false_iff.1 hhelp
    obtain ⟨hname', hnumber'⟩ := Bool.or_eq_false_iff.1 hquit
    simp only [List.mem_cons, List.not_mem_nil, or_false] at hmem
    rcases hmem with rfl | rfl | rfl | rfl
    · exact absurd (hstart.symm.trans hname) (by decide)
    · exact absurd (hstart.symm.trans hnumber) (by decide)
    · exact absurd (hstart.symm.trans hname') (by decide)
    · exact absurd (hstart.symm.trans hnumber') (by decide)
  have hmenu : menuRequest word =
      controlRequests.find? fun r => decide (r.number = a) || decide (r.message = a) := by
    refine List.find?_congr fun r _ => ?_
    have htexts : ∀ r : ControlRequest, r.number ∈ menuTexts ∧ r.message ∈ menuTexts := by
      intro r
      cases r <;> decide
    rw [honly _ (htexts r).1, honly _ (htexts r).2]
  have hnames : requestOf word = controlRequests.find? fun r => decide (r.message = a) := by
    refine List.find?_congr fun r _ => ?_
    have htext : ∀ r : ControlRequest, r.message ∈ menuTexts := by
      intro r
      cases r <;> decide
    exact honly _ (htext r)
  have hnumbers : (COMMANDS.find? fun e => startsWith word e.1) =
      COMMANDS.find? fun e => decide (e.1 = a) :=
    List.find?_congr fun e he => honly _ (List.mem_append_left _ (List.mem_map_of_mem he))
  obtain ⟨hsome, hcases⟩ := menu_agrees a ha hother
  rw [hmenu]
  rcases hcases with ⟨e, he, hagree⟩ | ⟨hnone, hagree⟩
  · obtain ⟨hplain, hshort, hzero⟩ := plain_names e (List.mem_of_find?_eq_some he)
    refine ⟨e.2, ?_, hagree, hsome, hshort, hzero⟩
    rw [sendCommand, hnumbers, Option.mem_def.1 he]
    exact formatted_of_free hplain
  · refine ⟨word, ?_, by rw [hnames, hagree], hsome, h.short, h.free.1⟩
    rw [sendCommand, hnumbers, hnone]
    exact formatted_of_free h.free.2

/-! ## A session -/

/-- The words with a newline behind each. -/
def typedLines (words : List (List U8)) : List U8 := words.flatMap (· ++ [ascii '\n'])

/-- A text without a NUL is the string that it holds. -/
theorem takeWhile_ne_zero {l : List U8} (h : 0 ∉ l) : l.takeWhile (fun c => decide (c ≠ 0)) = l := by
  refine List.takeWhile_eq_self_iff.2 fun c hc => decide_eq_true ?_
  rintro rfl
  exact h hc

theorem not_quit_of_help (hhelp : isHelpCommand word = true) : isQuitCommand word = false := by
  have hmenu : ∀ a ∈ [MSG_HELP, text "0"], a ∈ menuTexts ∧
      (decide (MSG_QUIT = a) || decide (text "1" = a)) = false := by decide
  have hquit : ∀ a ∈ [MSG_HELP, text "0"], startsWith word a = true →
      isQuitCommand word = false := by
    intro a ha hstart
    obtain ⟨hmem, hapart⟩ := hmenu a ha
    rw [isQuitCommand, startsWith_menu hstart hmem (by decide : MSG_QUIT ∈ menuTexts),
      startsWith_menu hstart hmem (by decide : text "1" ∈ menuTexts)]
    exact hapart
  rcases Bool.or_eq_true_iff.1 hhelp with hname | hnumber
  · exact hquit MSG_HELP (by decide) hname
  · exact hquit (text "0") (by decide) hnumber

/-- **The next word**, and the newline that is left behind it, for the next `getchar`. -/
theorem getCommand_typed (h : Typed word) (b : U8) (rest : List U8) :
    getCommand (b :: (word ++ ascii '\n' :: rest)) = some (word, ascii '\n' :: rest) := by
  have hne : word ≠ [] := by
    rintro rfl
    exact absurd h.check (by decide)
  have hscan : scanWord (word ++ ascii '\n' :: rest) = (word, ascii '\n' :: rest) := by
    have hfirst : (word ++ ascii '\n' :: rest).dropWhile isSpace = word ++ ascii '\n' :: rest := by
      obtain ⟨c, word', rfl⟩ := List.exists_cons_of_ne_nil hne
      have hc := h.unspaced c List.mem_cons_self
      rw [List.cons_append, List.dropWhile_cons, hc]
      rfl
    have hall : ∀ c ∈ word, (!isSpace c) = true := fun c hc => by rw [h.unspaced c hc]; rfl
    rw [scanWord, hfirst, List.span_eq_takeWhile_dropWhile,
      List.takeWhile_append_of_pos hall, List.dropWhile_append_of_pos hall,
      List.takeWhile_cons, List.dropWhile_cons]
    have hnewline : isSpace (ascii '\n') = true := by decide
    rw [hnewline]
    simp
  rw [getCommand, hscan]
  dsimp only
  rw [if_neg (Nat.not_le.2 h.short), takeWhile_ne_zero h.free.1, if_pos h.check]

theorem getCommand_end (b : U8) : getCommand [b] = none := by
  have hscan : scanWord [] = ([], []) := rfl
  rw [getCommand, hscan]
  dsimp only
  rw [if_neg (by decide), if_neg (by decide), getCommand]

/-- One word of a session. -/
theorem clientSession_typed (h : Typed word) (b : U8) (words : List (List U8)) :
    clientSession (b :: typedLines (word :: words)) =
      if isHelpCommand word then clientSession (ascii '\n' :: typedLines words)
      else if isQuitCommand word then []
      else
        match sendCommand word with
        | none => []
        | some message => message :: clientSession (ascii '\n' :: typedLines words) := by
  have hlines : typedLines (word :: words) = word ++ ascii '\n' :: typedLines words := by
    rw [typedLines, List.flatMap_cons, List.append_assoc]
    rfl
  rw [hlines, clientSession]
  split
  · rename_i hread
    rw [getCommand_typed h] at hread
    cases hread
  · rename_i hread
    rw [getCommand_typed h] at hread
    cases hread
    rfl

/-- **A session is understood.**  `getchar` takes the first character of the input, and after each word
    the newline that `scanf` has left: the first word loses its first character, and no other does.
    Of the words from there on, up to `quit`, all but `help` are sent, and the daemon takes each for
    the request that the menu has for it. -/
theorem session_understood (b : U8) {words : List (List U8)} (h : ∀ w ∈ words, Typed w) :
    (clientSession (b :: typedLines words)).map (fun m => (ControlEvent.command (some m)).asks) =
      ((words.takeWhile fun w => !isQuitCommand w).filter fun w => !isHelpCommand w).map
        menuRequest ∧
      ∀ m ∈ clientSession (b :: typedLines words), m.length < 128 ∧
        ((ControlEvent.command (some m)).asks).isSome = true := by
  induction words generalizing b with
  | nil =>
    have hend : clientSession (b :: typedLines []) = [] := by
      rw [typedLines, List.flatMap_nil, clientSession]
      split
      · rfl
      · rename_i hread
        rw [getCommand_end] at hread
        cases hread
    rw [hend]
    exact ⟨rfl, fun m hm => absurd hm List.not_mem_nil⟩
  | cons word words ih =>
    have hword := h word List.mem_cons_self
    obtain ⟨hrest, hmessages⟩ := ih (ascii '\n') fun w hw => h w (List.mem_cons_of_mem _ hw)
    rw [clientSession_typed hword]
    cases hhelp : isHelpCommand word with
    | true =>
      rw [if_pos rfl, List.takeWhile_cons, not_quit_of_help hhelp]
      simp only [Bool.not_false, if_true, List.filter_cons, hhelp, Bool.not_true,
        Bool.false_eq_true, if_false]
      exact ⟨hrest, hmessages⟩
    | false =>
      rw [if_neg Bool.false_ne_true]
      cases hquit : isQuitCommand word with
      | true =>
        rw [if_pos rfl, List.takeWhile_cons, hquit]
        exact ⟨rfl, fun m hm => absurd hm List.not_mem_nil⟩
      | false =>
        obtain ⟨message, hsend, hunderstood, hsome, hshort, hzero⟩ :=
          sendCommand_understood hword hhelp hquit
        have hasks : (ControlEvent.command (some message)).asks = menuRequest word := by
          rw [ControlEvent.asks, Option.bind_some, takeWhile_ne_zero hzero]
          exact hunderstood
        rw [if_neg Bool.false_ne_true, hsend, List.takeWhile_cons, hquit]
        simp only [Bool.not_false, if_true, List.filter_cons, hhelp, List.map_cons, hasks, hrest]
        refine ⟨trivial, fun m hm => ?_⟩
        rcases List.mem_cons.1 hm with rfl | hm
        · exact ⟨hshort, by rw [hasks]; exact hsome⟩
        · exact hmessages m hm

/-- What is left of the lines `xkill` and `5`. -/
def smallSession : List (List U8) := [text "kill", text "5"]

theorem typed_smallSession : ∀ w ∈ smallSession, Typed w := by
  intro w hw
  have hfacts : (∀ b ∈ w, isSpace b = false) ∧ (0 ∉ w ∧ ascii '%' ∉ w) ∧ w.length < command_SIZE ∧
      checkCommand w = true := by
    revert w
    decide
  exact ⟨hfacts.1, hfacts.2.1, hfacts.2.2.1, hfacts.2.2.2⟩

theorem session_understood_small :
    (clientSession (ascii 'x' :: typedLines smallSession)).map
        (fun m => (ControlEvent.command (some m)).asks) =
      [some .kill, some .showStatistics] :=
  (session_understood (ascii 'x') typed_smallSession).1.trans (by decide)

end Meshias
