import Mathlib.Data.List.Induction
import Curried.CommandLine
import Curried.Proofs.Except

/-!
The order of arguments. Options and words are told apart one by one, and what an option sets does
not depend on the words around it, so the two may be interleaved in any way: the words come together
in their order, a flag counts wherever it stands, and the last prompt is the prompt
(`parse_interleaved`). The first option that is not known ends it. An option in the place of a
command stands for the loop.
-/

namespace Curried.CommandLine

/-- The options there are. -/
def Known (arg : String) : Prop :=
  arg = "--no-check" ∨ arg = "--types" ∨ arg = "-t" ∨ ∃ text, arg = "--prompt=" ++ text

/-- The arguments that are no options. -/
def wordsOf (args : List String) : List String := args.filter (!isOption ·)

/-- The prompts that options ask for. -/
def promptsOf (args : List String) : List String := args.filterMap (after? "--prompt=")

/-- What the options among the arguments ask for together. -/
def optionsOf (args : List String) : Options where
  check := "--no-check" ∉ args
  showTypes := "--types" ∈ args ∨ "-t" ∈ args
  prompt := (promptsOf args).getLast?.getD "> "

variable {arg start text : String} {o : Options} {args args' before after words : List String}

/-! ## One argument -/

theorem after?_eq_some_iff : after? start arg = some text ↔ arg = start ++ text := by
  rw [after?, ← String.toList_inj, String.toList_append]
  split
  · next hstart =>
    obtain ⟨rest, hrest⟩ := List.isPrefixOf_iff_prefix.mp hstart
    rw [← hrest, List.drop_left, Option.some_inj, List.append_cancel_left_eq, ← String.toList_inj,
      String.toList_ofList]
  · next hstart =>
    refine ⟨nofun, fun h => absurd (List.isPrefixOf_iff_prefix.mpr ?_) hstart⟩
    exact ⟨text.toList, h.symm⟩

theorem isSome_after?_iff : (after? start arg).isSome ↔ ∃ text, arg = start ++ text := by
  simp only [Option.isSome_iff_exists, after?_eq_some_iff]

theorem isOption_iff : isOption arg ↔ (∃ text, arg = "--" ++ text) ∨ arg = "-t" := by
  rw [isOption, Bool.or_eq_true, isSome_after?_iff, beq_iff_eq]

theorem Known.isOption (h : Known arg) : isOption arg := by
  obtain rfl | rfl | rfl | ⟨text, rfl⟩ := h
  · rfl
  · rfl
  · rfl
  · exact isOption_iff.mpr (.inl ⟨"prompt=" ++ text, by rw [← String.append_assoc]; rfl⟩)

instance : DecidablePred Known := fun arg =>
  decidable_of_iff
    (arg = "--no-check" ∨ arg = "--types" ∨ arg = "-t" ∨ (after? "--prompt=" arg).isSome)
    (by rw [isSome_after?_iff, Known])

theorem not_known_iff : ¬Known arg ↔
    arg ≠ "--no-check" ∧ arg ≠ "--types" ∧ arg ≠ "-t" ∧ after? "--prompt=" arg = none := by
  rw [← Option.not_isSome_iff_eq_none, isSome_after?_iff, Known, not_or, not_or, not_or]

/-- An option that gives a prompt is no other one. -/
theorem prompt_ne {flag : String} (h : after? "--prompt=" flag = none) (text : String) :
    "--prompt=" ++ text ≠ flag :=
  fun heq => nomatch h.symm.trans (after?_eq_some_iff.mpr heq.symm)

theorem setOption_prompt (o : Options) (text : String) :
    setOption o ("--prompt=" ++ text) = some { o with prompt := text } := by
  rw [setOption, if_neg (prompt_ne rfl text), after?_eq_some_iff.mpr rfl,
    if_neg (not_or.mpr ⟨prompt_ne rfl text, prompt_ne rfl text⟩)]
  rfl

theorem setOption_of_known (h : Known arg) (o : Options) : ∃ o', setOption o arg = some o' := by
  obtain rfl | rfl | rfl | ⟨text, rfl⟩ := h
  · exact ⟨_, rfl⟩
  · exact ⟨_, rfl⟩
  · exact ⟨_, rfl⟩
  · exact ⟨_, setOption_prompt o text⟩

theorem setOption_of_not_known (h : ¬Known arg) (o : Options) : setOption o arg = none := by
  obtain ⟨hcheck, htypes, ht, hprompt⟩ := not_known_iff.mp h
  rw [setOption, if_neg hcheck, if_neg (not_or.mpr ⟨htypes, ht⟩), hprompt]
  rfl

/-! ## All arguments -/

/-- One more argument sets what it names, if it is a known option, and nothing else. -/
theorem optionsOf_concat (args : List String) (arg : String) : optionsOf (args ++ [arg]) =
    (setOption (optionsOf args) arg).getD (optionsOf args) := by
  by_cases h : Known arg
  · obtain rfl | rfl | rfl | ⟨text, rfl⟩ := h
    · have hprompt : after? "--prompt=" "--no-check" = none := rfl
      simp [optionsOf, promptsOf, setOption, hprompt]
    · have hprompt : after? "--prompt=" "--types" = none := rfl
      simp [optionsOf, promptsOf, setOption, hprompt]
    · have hprompt : after? "--prompt=" "-t" = none := rfl
      simp [optionsOf, promptsOf, setOption, hprompt]
    · have hprompt : after? "--prompt=" ("--prompt=" ++ text) = some text :=
        after?_eq_some_iff.mpr rfl
      have hcheck : "--no-check" ≠ "--prompt=" ++ text := (prompt_ne rfl text).symm
      have htypes : "--types" ≠ "--prompt=" ++ text := (prompt_ne rfl text).symm
      have ht : "-t" ≠ "--prompt=" ++ text := (prompt_ne rfl text).symm
      rw [setOption_prompt]
      simp [optionsOf, promptsOf, hprompt, hcheck, htypes, ht]
  · rw [setOption_of_not_known h]
    obtain ⟨hcheck, htypes, ht, hprompt⟩ := not_known_iff.mp h
    simp [optionsOf, promptsOf, hprompt, hcheck.symm, htypes.symm, ht.symm]

/-- Behind words and known options, the rest is told apart with what these set. -/
theorem splitFrom_append (h : ∀ a ∈ args, isOption a → Known a) (more : List String) :
    splitFrom {} [] (args ++ more) = splitFrom (optionsOf args) (wordsOf args).reverse more := by
  induction args using List.reverseRecOn generalizing more with
  | nil => rfl
  | append_singleton args arg ih =>
    obtain ⟨hargs, harg⟩ := List.forall_mem_append.mp h
    rw [List.append_assoc, ih hargs, List.singleton_append, splitFrom, optionsOf_concat]
    split_ifs with hoption
    · obtain ⟨o, ho⟩ := setOption_of_known (harg arg List.mem_cons_self hoption) (optionsOf args)
      simp [ho, wordsOf, hoption]
    · rw [setOption_of_not_known (mt Known.isOption hoption)]
      simp [wordsOf, hoption]

theorem split_of_known (h : ∀ a ∈ args, isOption a → Known a) :
    split args = .ok (optionsOf args, wordsOf args) := by
  have hsplit := splitFrom_append h []
  rw [List.append_nil, splitFrom, List.reverse_reverse] at hsplit
  exact hsplit

/-- The first option that is not known is the one that the error names. -/
theorem split_of_not_known (h : ∀ a ∈ before, isOption a → Known a) (harg : isOption arg)
    (hunknown : ¬Known arg) (after : List String) :
    split (before ++ arg :: after) = .error (usage ("unknown option `" ++ arg ++ "`")) := by
  rw [split, splitFrom_append h, splitFrom, if_pos harg, setOption_of_not_known hunknown]

/-- What the options ask for together depends on which there are and on the order of the prompts. -/
theorem optionsOf_perm (h : args'.Perm args) (hprompts : promptsOf args' = promptsOf args) :
    optionsOf args' = optionsOf args := by
  simp only [optionsOf, h.mem_iff, hprompts]

theorem parse_eval (args : List String) : parse ("eval" :: args) = (do
    let (options, words) ← split args
    let text ← source words "slip eval <expr>"
    return Command.eval text options) := rfl

theorem parse_eval_of_known (h : ∀ a ∈ args, isOption a → Known a) (hwords : wordsOf args ≠ []) :
    parse ("eval" :: args) = .ok (.eval (" ".intercalate (wordsOf args)) (optionsOf args)) := by
  rw [parse_eval, split_of_known h]
  simp only [ok_bind]
  rw [source, if_neg (mt List.isEmpty_iff.mp hwords)]
  rfl

theorem parse_eval_of_no_words (h : ∀ a ∈ args, isOption a → Known a) (hwords : wordsOf args = []) :
    parse ("eval" :: args) = .error (usage "Usage: slip eval <expr>") := by
  rw [parse_eval, split_of_known h, hwords]
  rfl

theorem parse_eval_of_not_known (h : ∀ a ∈ before, isOption a → Known a) (harg : isOption arg)
    (hunknown : ¬Known arg) (after : List String) : parse ("eval" :: (before ++ arg :: after)) =
      .error (usage ("unknown option `" ++ arg ++ "`")) := by
  rw [parse_eval, split_of_not_known h harg hunknown, error_bind]

/-- Options in the place of a command are those of the loop. -/
theorem parse_dash (hdash : ∃ text, arg = "-" ++ text)
    (hcommand : arg ∉ ["--help", "-h", "--version", "-V"]) (rest : List String) :
    parse (arg :: rest) = parse ("repl" :: arg :: rest) := by
  have hafter : (after? "-" arg).isSome := isSome_after?_iff.mpr hdash
  change parse (arg :: rest) = repl (arg :: rest)
  rw [parse, if_pos hafter]
  all_goals rintro rfl
  case x_9 | x_10 | x_12 | x_13 => exact hcommand (by decide)
  all_goals exact nomatch hafter

/-- Options and words may be interleaved. As long as all options are known and some word remains,
the words come together and the options are those asked for, so arguments in another order, but with
the same words and prompts one after the other, give the same command. Otherwise the error names the
first option that is not known, if there is one. -/
theorem parse_interleaved :
    (∀ args, (∀ a ∈ args, isOption a → Known a) → wordsOf args ≠ [] →
      parse ("eval" :: args) = .ok (.eval (" ".intercalate (wordsOf args)) (optionsOf args)) ∧
      ∀ args', args'.Perm args → wordsOf args' = wordsOf args → promptsOf args' = promptsOf args →
        parse ("eval" :: args') = parse ("eval" :: args)) ∧
    (∀ before arg after, (∀ a ∈ before, isOption a → Known a) → isOption arg → ¬Known arg →
      parse ("eval" :: (before ++ arg :: after)) =
        .error (usage ("unknown option `" ++ arg ++ "`"))) ∧
    (∀ args, (∀ a ∈ args, isOption a → Known a) → wordsOf args = [] →
      parse ("eval" :: args) = .error (usage "Usage: slip eval <expr>")) ∧
    ∀ arg rest, (∃ text, arg = "-" ++ text) → arg ∉ ["--help", "-h", "--version", "-V"] →
      parse (arg :: rest) = parse ("repl" :: arg :: rest) := by
  refine ⟨fun args h hwords =>
      ⟨parse_eval_of_known h hwords, fun args' hperm hwords' hprompts => ?_⟩,
    fun before arg after h harg hunknown => parse_eval_of_not_known h harg hunknown after,
    fun args => parse_eval_of_no_words,
    fun arg rest hdash hcommand => parse_dash hdash hcommand rest⟩
  have h' : ∀ a ∈ args', isOption a → Known a := fun a ha => h a (hperm.mem_iff.mp ha)
  rw [parse_eval_of_known h' (hwords' ▸ hwords), parse_eval_of_known h hwords, hwords',
    optionsOf_perm hperm hprompts]

/-- Options on both sides of every word. The last of two prompts counts, so it may not change places
with the other one. -/
theorem parse_interleaved_prompts :
    parse ["eval", "--prompt=a", "(+", "-t", "1", "--no-check", "2)", "--prompt=b"] =
      .ok (.eval "(+ 1 2)" ⟨false, true, "b"⟩) ∧
    parse ["eval", "-t", "(+", "1", "--prompt=a", "2)", "--prompt=b", "--no-check"] =
      parse ["eval", "--prompt=a", "(+", "-t", "1", "--no-check", "2)", "--prompt=b"] ∧
    parse ["eval", "-t", "1", "--typo", "--other"] = .error (usage "unknown option `--typo`") ∧
    parse ["eval", "--types"] = .error (usage "Usage: slip eval <expr>") ∧
    parse ["-t", "1"] = parse ["repl", "-t", "1"] := by
  have hparse := parse_interleaved.1
    ["--prompt=a", "(+", "-t", "1", "--no-check", "2)", "--prompt=b"] (by decide) (by decide)
  refine ⟨hparse.1, hparse.2 _ (by decide) rfl rfl, ?_, ?_, ?_⟩
  · exact parse_interleaved.2.1 ["-t", "1"] "--typo" ["--other"] (by decide) rfl (by decide)
  · exact parse_interleaved.2.2.1 ["--types"] (by decide) rfl
  · exact parse_interleaved.2.2.2 "-t" ["1"] ⟨"t", rfl⟩ (by decide)

end Curried.CommandLine
