import Chip8.Settings
import Chip8.Proofs.Numeral
import Mathlib.Data.List.Basic

/-!
# The grammar of the command line

`Reads` is how a list of arguments falls into tokens, `Accepts` which tokens make settings and which
settings, and `Refuses` which error they make otherwise. None of them knows of drafts or of an order
in which anything is computed; that a token offends depends on the tokens before it only where it is
a second word.

## Main result

`ofArguments_grammar`: arguments are read in one way, give the settings their tokens are accepted
with and no others, and fail with the error of the leftmost token that offends. Where no flag is
given twice, the order of the tokens does not matter to what is accepted.
-/

namespace Chip8.Settings

/-! ### The grammar -/

/-- The tokens of a list of arguments, read from the left. -/
inductive Reads : List String → List Token → Prop
  | done : Reads [] []
  /-- The value may look like a flag, or like a rom. -/
  | option (flag : Flag) (value : String) {rest : List String} {ts : List Token}
      (behind : Reads rest ts) :
      Reads (flag.name :: value :: rest) (.option flag (some value) :: ts)
  | lastOption (flag : Flag) : Reads [flag.name] [.option flag none]
  | unknownFlag {argument : String} (other : ∀ flag : Flag, argument ≠ flag.name)
      (dashed : "--".toList <+: argument.toList) {rest : List String} {ts : List Token}
      (behind : Reads rest ts) : Reads (argument :: rest) (.unknownFlag argument :: ts)
  | word {argument : String} (plain : ¬"--".toList <+: argument.toList) {rest : List String}
      {ts : List Token} (behind : Reads rest ts) : Reads (argument :: rest) (.word argument :: ts)

namespace Flag

def bound : Flag → Nat
  | .scale => UInt32.size
  | .speed => UInt64.size

/-- A text that a flag takes, and the number it takes it for. -/
structure Admits (flag : Flag) (text : String) (value : Nat) : Prop where
  denotes : Numeral.Denotes text value
  bounded : value < flag.bound
  positive : flag = .speed → value ≠ 0

end Flag

namespace Token

def word? : Token → Option String
  | .word argument => some argument
  | _ => none

/-- The value that is given to a flag here. -/
def value? (flag : Flag) : Token → Option String
  | .option given value => if given = flag then value else none
  | _ => none

end Token

def words (ts : List Token) : List String :=
  ts.filterMap Token.word?

def values (flag : Flag) (ts : List Token) : List String :=
  ts.filterMap (Token.value? flag)

/-- What the values of a flag come to. The last one decides, whatever those before it were. -/
inductive Gives (given : List String) (unset : Nat) (measure : Nat → Nat) : Nat → Prop
  | unset (absent : given = []) : Gives given unset measure unset
  | last {text : String} {value : Nat} (last : given.getLast? = some text)
      (denotes : Numeral.Denotes text value) : Gives given unset measure (measure value)

structure Accepts (ts : List Token) (settings : Settings) : Prop where
  valid : ∀ flag text?, .option flag text? ∈ ts →
    ∃ text value, text? = some text ∧ flag.Admits text value
  known : ∀ argument, .unknownFlag argument ∉ ts
  rom : words ts = [settings.rom]
  scale : Gives (values .scale ts) 10 id settings.scale
  cycle : Gives (values .speed ts) 2000000 (1000000000 / ·) settings.cycle

/-- What is wrong with a token behind those before it. -/
inductive Offends (before : List Token) : Token → Error → Prop
  | missingValue (flag : Flag) : Offends before (.option flag none) (.missingValue flag)
  | invalidValue {flag : Flag} {text : String}
      (invalid : ∀ value < flag.bound, ¬Numeral.Denotes text value) :
      Offends before (.option flag (some text)) (.invalidValue flag text)
  | zeroSpeed {text : String} (zero : Numeral.Denotes text 0) :
      Offends before (.option .speed (some text)) .zeroSpeed
  | unknownFlag (argument : String) :
      Offends before (.unknownFlag argument) (.unknownFlag argument)
  | unexpected {first : String} (there : .word first ∈ before) (second : String) :
      Offends before (.word second) (.unexpected second)

/-- None of the tokens offends. -/
def Fine (ts : List Token) : Prop :=
  ∀ before token after, ts = before ++ token :: after → ∀ error, ¬Offends before token error

/-- The leftmost token that offends decides the error. Only if there is none can the rom be missing.
-/
inductive Refuses (ts : List Token) : Error → Prop
  | leftmost {before after : List Token} {token : Token} {error : Error}
      (cut : ts = before ++ token :: after) (fine : Fine before)
      (offends : Offends before token error) : Refuses ts error
  | missingRom (fine : Fine ts) (absent : words ts = []) : Refuses ts .missingRom

/-! ### Arguments and their tokens -/

theorem Flag.named?_eq_some_iff (argument : String) (flag : Flag) :
    Flag.named? argument = some flag ↔ argument = flag.name := by
  constructor
  · intro named
    simp only [named?] at named
    split at named
    next scale => cases named; exact scale
    next =>
      split at named
      next speed => cases named; exact speed
      next => cases named
  · rintro rfl
    cases flag <;> rfl

theorem Flag.named?_eq_none_iff (argument : String) :
    Flag.named? argument = none ↔ ∀ flag : Flag, argument ≠ flag.name := by
  simp only [Option.eq_none_iff_forall_ne_some, ne_eq, named?_eq_some_iff]

theorem Flag.dashed (flag : Flag) : "--".toList <+: flag.name.toList := by
  cases flag <;> decide

theorem Flag.ne_name_of_plain {argument : String} (plain : ¬"--".toList <+: argument.toList)
    (flag : Flag) : argument ≠ flag.name := by
  rintro rfl
  exact plain flag.dashed

theorem tokens_option (flag : Flag) (value : String) (rest : List String) :
    tokens (flag.name :: value :: rest) = .option flag (some value) :: tokens rest := by
  simp only [tokens, (Flag.named?_eq_some_iff _ _).mpr rfl]

theorem tokens_lastOption (flag : Flag) : tokens [flag.name] = [.option flag none] := by
  simp only [tokens, (Flag.named?_eq_some_iff _ _).mpr rfl]

theorem tokens_alone {argument : String} (other : ∀ flag : Flag, argument ≠ flag.name)
    (rest : List String) : tokens (argument :: rest) = .alone argument :: tokens rest := by
  cases rest <;> simp only [tokens, (Flag.named?_eq_none_iff argument).mpr other]

theorem Token.alone_eq_unknownFlag {argument : String} (dashed : "--".toList <+: argument.toList) :
    alone argument = .unknownFlag argument :=
  if_pos (List.isPrefixOf_iff_prefix.mpr dashed)

theorem Token.alone_eq_word {argument : String} (plain : ¬"--".toList <+: argument.toList) :
    alone argument = .word argument :=
  if_neg fun dashed => plain (List.isPrefixOf_iff_prefix.mp dashed)

theorem Reads.tokens_eq {arguments : List String} {ts : List Token} (reads : Reads arguments ts) :
    tokens arguments = ts := by
  induction reads with
  | done => rfl
  | option flag value behind ih => rw [tokens_option, ih]
  | lastOption flag => exact tokens_lastOption flag
  | unknownFlag other dashed behind ih =>
    rw [tokens_alone other, Token.alone_eq_unknownFlag dashed, ih]
  | word plain behind ih =>
    rw [tokens_alone (Flag.ne_name_of_plain plain), Token.alone_eq_word plain, ih]

theorem Reads.alone {argument : String} (other : ∀ flag : Flag, argument ≠ flag.name)
    {rest : List String} {ts : List Token} (behind : Reads rest ts) :
    Reads (argument :: rest) (.alone argument :: ts) := by
  by_cases dashed : "--".toList <+: argument.toList
  · rw [Token.alone_eq_unknownFlag dashed]
    exact .unknownFlag other dashed behind
  · rw [Token.alone_eq_word dashed]
    exact .word dashed behind

theorem reads_tokens (arguments : List String) : Reads arguments (tokens arguments) := by
  -- The cases are those of `tokens`: the last argument by itself, and any other with the one
  -- behind it.
  induction arguments using tokens.induct with
  | case1 => exact .done
  | case2 argument flag named =>
    obtain rfl := (Flag.named?_eq_some_iff argument flag).mp named
    rw [tokens_lastOption]
    exact .lastOption flag
  | case3 argument other =>
    have other := (Flag.named?_eq_none_iff argument).mp other
    rw [tokens_alone other]
    exact .alone other .done
  | case4 argument value rest flag named ih =>
    obtain rfl := (Flag.named?_eq_some_iff argument flag).mp named
    rw [tokens_option]
    exact .option flag value ih
  | case5 argument value rest other ih =>
    have other := (Flag.named?_eq_none_iff argument).mp other
    rw [tokens_alone other]
    exact .alone other ih

theorem reads_iff (arguments : List String) (ts : List Token) :
    Reads arguments ts ↔ ts = tokens arguments := by
  constructor
  · exact fun reads => reads.tokens_eq.symm
  · rintro rfl
    exact reads_tokens arguments

/-! ### Taking in one token -/

theorem number_of_denotes {flag : Flag} {text : String} {value : Nat}
    (denotes : Numeral.Denotes text value) (bounded : value < flag.bound) :
    number flag flag.bound (some text) = .ok value := by
  have read := (Numeral.read?_eq_some_iff flag.bound text value).mpr ⟨denotes, bounded⟩
  simp only [number, read]

theorem number_of_invalid {flag : Flag} {text : String}
    (invalid : ∀ value < flag.bound, ¬Numeral.Denotes text value) :
    number flag flag.bound (some text) = .error (.invalidValue flag text) := by
  have unread : Numeral.read? flag.bound text = none := by
    rw [Option.eq_none_iff_forall_ne_some]
    intro value read
    obtain ⟨denotes, bounded⟩ := (Numeral.read?_eq_some_iff flag.bound text value).mp read
    exact invalid value bounded denotes
  simp only [number, unread]

/-- A value is either what its flag admits, or offends. -/
theorem admits_or_offends (before : List Token) (flag : Flag) (text? : Option String) :
    (∃ text value, text? = some text ∧ flag.Admits text value) ∨
      ∃ error, Offends before (.option flag text?) error := by
  cases text? with
  | none => exact .inr ⟨_, .missingValue flag⟩
  | some text =>
    by_cases numeral : ∃ value < flag.bound, Numeral.Denotes text value
    · obtain ⟨value, bounded, denotes⟩ := numeral
      by_cases stands : flag = .speed ∧ value = 0
      · obtain ⟨rfl, rfl⟩ := stands
        exact .inr ⟨_, .zeroSpeed denotes⟩
      · exact .inl ⟨text, value, rfl, denotes, bounded, not_and.mp stands⟩
    · have invalid : ∀ value < flag.bound, ¬Numeral.Denotes text value :=
        fun value bounded denotes => numeral ⟨value, bounded, denotes⟩
      exact .inr ⟨_, .invalidValue invalid⟩

/-- What a draft has of the tokens that it has taken in. -/
structure Draft.Holds (draft : Draft) (ts : List Token) : Prop where
  rom : words ts = draft.rom.toList
  scale : Gives (values .scale ts) 10 id draft.scale
  cycle : Gives (values .speed ts) 2000000 (1000000000 / ·) draft.cycle

theorem words_append (ts others : List Token) : words (ts ++ others) = words ts ++ words others :=
  List.filterMap_append

theorem values_concat_of_some {flag : Flag} {token : Token} {text : String}
    (given : token.value? flag = some text) (ts : List Token) :
    values flag (ts ++ [token]) = values flag ts ++ [text] := by
  simp only [values, List.filterMap_append, List.filterMap_cons_some given, List.filterMap_nil]

theorem values_concat_of_none {flag : Flag} {token : Token} (none : token.value? flag = none)
    (ts : List Token) : values flag (ts ++ [token]) = values flag ts := by
  simp only [values, List.filterMap_append, List.filterMap_cons_none none, List.filterMap_nil,
    List.append_nil]

theorem mem_words_iff (ts : List Token) (argument : String) :
    argument ∈ words ts ↔ .word argument ∈ ts := by
  simp only [words, List.mem_filterMap]
  constructor
  · rintro ⟨token, member, found⟩
    cases token with
    | word text => cases found; exact member
    | option flag value => cases found
    | unknownFlag text => cases found
  · exact fun member => ⟨_, member, rfl⟩

theorem Gives.concat (given : List String) (unset : Nat) (measure : Nat → Nat) {text : String}
    {value : Nat} (denotes : Numeral.Denotes text value) :
    Gives (given ++ [text]) unset measure (measure value) :=
  .last List.getLast?_concat denotes

theorem Gives.unique {given : List String} {unset : Nat} {measure : Nat → Nat} {one other : Nat}
    (first : Gives given unset measure one) (second : Gives given unset measure other) :
    one = other := by
  cases first with
  | unset absent =>
    subst absent
    cases second with
    | unset => rfl
    | last last => cases last
  | last last denotes =>
    cases second with
    | unset absent =>
      subst absent
      cases last
    | last again same =>
      cases Option.some_inj.mp (last.symm.trans again)
      rw [denotes.unique same]

namespace Draft

theorem empty_holds : empty.Holds [] where
  rom := rfl
  scale := .unset rfl
  cycle := .unset rfl

/-- The draft with the value of a flag. -/
def set (draft : Draft) : Flag → Nat → Draft
  | .scale, value => { draft with scale := value }
  | .speed, value => { draft with cycle := second / value }

variable {draft : Draft} {before : List Token}

/-- Both flags are taken alike, but that a speed of zero is refused. -/
theorem take_option (flag : Flag) (text? : Option String) :
    draft.take (.option flag text?) = (number flag flag.bound text?).bind fun value =>
      if flag = .speed ∧ value = 0 then .error .zeroSpeed else .ok (draft.set flag value) := by
  cases flag with
  | scale =>
    simp only [reduceCtorEq, false_and, if_false]
    rfl
  | speed =>
    simp only [true_and]
    rfl

theorem take_of_admits {flag : Flag} {text : String} {value : Nat}
    (admits : flag.Admits text value) :
    draft.take (.option flag (some text)) = .ok (draft.set flag value) := by
  rw [take_option, number_of_denotes admits.denotes admits.bounded]
  exact if_neg (not_and.mpr admits.positive)

theorem Holds.set (holds : draft.Holds before) {flag : Flag} {text : String} {value : Nat}
    (admits : flag.Admits text value) :
    (draft.set flag value).Holds (before ++ [.option flag (some text)]) where
  rom := by
    rw [words_append, holds.rom]
    cases flag <;> exact List.append_nil _
  scale := by
    cases flag with
    | scale =>
      rw [values_concat_of_some rfl]
      exact .concat _ _ _ admits.denotes
    | speed =>
      rw [values_concat_of_none rfl]
      exact holds.scale
  cycle := by
    cases flag with
    | scale =>
      rw [values_concat_of_none rfl]
      exact holds.cycle
    | speed =>
      rw [values_concat_of_some rfl]
      exact .concat _ _ _ admits.denotes

/-- The first word is the rom. -/
theorem Holds.name (holds : draft.Holds before) (free : draft.rom = none) (argument : String) :
    { draft with rom := some argument : Draft }.Holds (before ++ [.word argument]) where
  rom := by
    rw [words_append, holds.rom, free]
    rfl
  scale := by
    rw [values_concat_of_none rfl]
    exact holds.scale
  cycle := by
    rw [values_concat_of_none rfl]
    exact holds.cycle

theorem Holds.rom_mem (holds : draft.Holds before) {argument : String}
    (named : draft.rom = some argument) : .word argument ∈ before := by
  rw [← mem_words_iff, holds.rom, named]
  exact List.mem_singleton_self argument

theorem Holds.take_of_offends (holds : draft.Holds before) {token : Token} {error : Error}
    (offends : Offends before token error) : draft.take token = .error error := by
  cases offends with
  | missingValue flag => cases flag <;> rfl
  | invalidValue invalid =>
    rw [take_option, number_of_invalid invalid]
    rfl
  | zeroSpeed zero =>
    have bounded : 0 < Flag.speed.bound := by decide
    rw [take_option, number_of_denotes zero bounded]
    rfl
  | unknownFlag argument => rfl
  | unexpected there second =>
    rw [← mem_words_iff, holds.rom, Option.mem_toList] at there
    simp only [take, Option.mem_def.mp there]

theorem Holds.take (holds : draft.Holds before) (token : Token)
    (fine : ∀ error, ¬Offends before token error) :
    ∃ next, draft.take token = .ok next ∧ next.Holds (before ++ [token]) := by
  cases token with
  | option flag text? =>
    obtain ⟨text, value, rfl, admits⟩ | ⟨error, offends⟩ := admits_or_offends before flag text?
    · exact ⟨_, take_of_admits admits, holds.set admits⟩
    · exact absurd offends (fine error)
  | unknownFlag argument => exact absurd (.unknownFlag argument) (fine _)
  | word argument =>
    cases named : draft.rom with
    | none => exact ⟨_, by simp only [Draft.take, named], holds.name named argument⟩
    | some first => exact absurd (.unexpected (holds.rom_mem named) argument) (fine _)

end Draft

/-! ### The tokens one by one -/

theorem collect_append {ts : List Token} {draft : Draft}
    (collected : ts.foldlM Draft.take Draft.empty = .ok draft) (others : List Token) :
    (ts ++ others).foldlM Draft.take Draft.empty = others.foldlM Draft.take draft := by
  rw [List.foldlM_append, collected]
  rfl

theorem Fine.of_append {ts others : List Token} (fine : Fine (ts ++ others)) : Fine ts := by
  rintro before token after rfl
  exact fine before token (after ++ others) (List.append_assoc _ _ _)

theorem Fine.concat {ts : List Token} (fine : Fine ts) {token : Token}
    (next : ∀ error, ¬Offends ts token error) : Fine (ts ++ [token]) := by
  intro before other after cut
  obtain rfl | ⟨after, last, rfl⟩ := List.eq_nil_or_concat' after
  · obtain ⟨rfl, same⟩ := List.append_inj' cut rfl
    cases same
    exact next
  · -- A cut in front of the last token is one of `ts`.
    rw [← List.cons_append, ← List.append_assoc] at cut
    obtain ⟨same, -⟩ := List.append_inj' cut rfl
    exact fine before other after same

theorem Fine.collects {ts : List Token} (fine : Fine ts) :
    ∃ draft, ts.foldlM Draft.take Draft.empty = .ok draft ∧ draft.Holds ts := by
  induction ts using List.reverseRecOn with
  | nil => exact ⟨Draft.empty, rfl, Draft.empty_holds⟩
  | append_singleton before token ih =>
    obtain ⟨draft, collected, holds⟩ := ih fine.of_append
    obtain ⟨next, taken, holds⟩ := holds.take token (fine before token [] rfl)
    refine ⟨next, ?_, holds⟩
    rw [collect_append collected, List.foldlM_cons, taken]
    rfl

/-- Behind tokens that are fine, one that offends is the leftmost to do so. -/
theorem Fine.stops {before : List Token} (fine : Fine before) {token : Token} {error : Error}
    (offends : Offends before token error) (after : List Token) :
    (before ++ token :: after).foldlM Draft.take Draft.empty = .error error := by
  obtain ⟨draft, collected, holds⟩ := fine.collects
  rw [collect_append collected, List.foldlM_cons, holds.take_of_offends offends]
  rfl

/-- Where there are tokens that offend, one of them is the leftmost. -/
theorem fine_or_leftmost (ts : List Token) :
    Fine ts ∨ ∃ before token after error, ts = before ++ token :: after ∧ Fine before ∧
      Offends before token error := by
  induction ts using List.reverseRecOn with
  | nil => exact .inl fun before token after cut => by simp at cut
  | append_singleton ts last ih =>
    -- The last token decides only where those before it are all fine.
    obtain fine | ⟨before, token, after, error, rfl, fine, offends⟩ := ih
    · by_cases offends : ∃ error, Offends ts last error
      · obtain ⟨error, offends⟩ := offends
        exact .inr ⟨ts, last, [], error, rfl, fine, offends⟩
      · exact .inl (fine.concat (not_exists.mp offends))
    · exact .inr ⟨before, token, after ++ [last], error, List.append_assoc _ _ _, fine, offends⟩

/-! ### What is accepted -/

theorem Accepts.fine {ts : List Token} {settings : Settings} (accepts : Accepts ts settings) :
    Fine ts := by
  rintro before token after rfl error offends
  have member : token ∈ before ++ token :: after :=
    List.mem_append_right before List.mem_cons_self
  cases offends with
  | missingValue flag =>
    obtain ⟨text, value, same, -⟩ := accepts.valid flag none member
    cases same
  | invalidValue invalid =>
    obtain ⟨text, value, same, admits⟩ := accepts.valid _ _ member
    cases same
    exact invalid value admits.bounded admits.denotes
  | zeroSpeed zero =>
    obtain ⟨text, value, same, admits⟩ := accepts.valid _ _ member
    cases same
    exact admits.positive rfl (admits.denotes.unique zero)
  | unknownFlag argument => exact accepts.known argument member
  | unexpected there second =>
    -- The words before and this one would be two, and there is only the rom.
    have only : words before ++ second :: words after = [settings.rom] :=
      (words_append before _).symm.trans accepts.rom
    obtain ⟨none, -⟩ | ⟨-, none⟩ := List.append_eq_singleton_iff.mp only
    · rw [← mem_words_iff, none] at there
      cases there
    · cases none

theorem Accepts.unique {ts : List Token} {one other : Settings} (first : Accepts ts one)
    (second : Accepts ts other) : one = other := by
  have rom := List.singleton_injective (first.rom.symm.trans second.rom)
  have scale := first.scale.unique second.scale
  have cycle := first.cycle.unique second.cycle
  cases one
  cases other
  simp only [Settings.mk.injEq]
  exact ⟨rom, scale, cycle⟩

theorem Fine.accepts {ts : List Token} (fine : Fine ts) {draft : Draft} (holds : draft.Holds ts)
    {rom : String} (named : draft.rom = some rom) :
    Accepts ts ⟨rom, draft.scale, draft.cycle⟩ where
  valid flag text? member := by
    obtain ⟨before, after, cut⟩ := List.append_of_mem member
    obtain admits | ⟨error, offends⟩ := admits_or_offends before flag text?
    · exact admits
    · exact absurd offends (fine before _ after cut error)
  known argument member := by
    obtain ⟨before, after, cut⟩ := List.append_of_mem member
    exact fine before _ after cut _ (.unknownFlag argument)
  rom := by rw [holds.rom, named]; rfl
  scale := holds.scale
  cycle := holds.cycle

/-! ### Settings and errors -/

section

variable {arguments : List String}

theorem ofArguments_of_fine (fine : Fine (tokens arguments)) :
    ∃ draft : Draft, draft.Holds (tokens arguments) ∧ ofArguments arguments = draft.finish := by
  obtain ⟨draft, collected, holds⟩ := fine.collects
  exact ⟨draft, holds, by rw [ofArguments, collected]; rfl⟩

theorem ofArguments_of_refuses {error : Error} (refuses : Refuses (tokens arguments) error) :
    ofArguments arguments = .error error := by
  cases refuses with
  | leftmost cut fine offends =>
    rw [ofArguments, cut, fine.stops offends]
    rfl
  | missingRom fine absent =>
    obtain ⟨draft, holds, result⟩ := ofArguments_of_fine fine
    have unnamed : draft.rom = none := by
      rw [holds.rom, Option.toList_eq_nil_iff] at absent
      exact absent
    rw [result, Draft.finish, unnamed]

theorem ofArguments_of_accepts {settings : Settings}
    (accepts : Accepts (tokens arguments) settings) :
    ofArguments arguments = .ok settings := by
  obtain ⟨draft, holds, result⟩ := ofArguments_of_fine accepts.fine
  have named : draft.rom = some settings.rom := by
    rw [← Option.toList_eq_singleton_iff, ← holds.rom, accepts.rom]
  rw [result, ← (accepts.fine.accepts holds named).unique accepts, Draft.finish, named]

/-- There is no third way. -/
theorem accepts_or_refuses (ts : List Token) :
    (∃ settings, Accepts ts settings) ∨ ∃ error, Refuses ts error := by
  obtain fine | ⟨before, token, after, error, cut, fine, offends⟩ := fine_or_leftmost ts
  · obtain ⟨draft, -, holds⟩ := fine.collects
    cases named : draft.rom with
    | none => exact .inr ⟨_, .missingRom fine (by rw [holds.rom, named]; rfl)⟩
    | some rom => exact .inl ⟨_, fine.accepts holds named⟩
  · exact .inr ⟨error, .leftmost cut fine offends⟩

theorem ofArguments_eq_ok_iff (settings : Settings) :
    ofArguments arguments = .ok settings ↔ Accepts (tokens arguments) settings := by
  refine ⟨fun result => ?_, ofArguments_of_accepts⟩
  obtain ⟨others, accepts⟩ | ⟨error, refuses⟩ := accepts_or_refuses (tokens arguments)
  · rw [ofArguments_of_accepts accepts] at result
    cases result
    exact accepts
  · rw [ofArguments_of_refuses refuses] at result
    cases result

theorem ofArguments_eq_error_iff (error : Error) :
    ofArguments arguments = .error error ↔ Refuses (tokens arguments) error := by
  refine ⟨fun result => ?_, ofArguments_of_refuses⟩
  obtain ⟨settings, accepts⟩ | ⟨other, refuses⟩ := accepts_or_refuses (tokens arguments)
  · rw [ofArguments_of_accepts accepts] at result
    cases result
  · rw [ofArguments_of_refuses refuses] at result
    cases result
    exact refuses

end

/-! ### The order of the tokens -/

theorem values_eq_of_perm {ts others : List Token} (perm : ts.Perm others) {flag : Flag}
    (once : (values flag ts).length ≤ 1) : values flag ts = values flag others := by
  have perm : (values flag ts).Perm (values flag others) := perm.filterMap _
  cases given : values flag ts with
  | nil =>
    rw [given] at perm
    exact perm.nil_eq
  | cons text rest =>
    rw [given] at once perm
    obtain rfl : rest = [] := List.length_eq_zero_iff.mp (by simpa using once)
    exact List.singleton_perm.mp perm

/-- Where no flag is given twice, nothing depends on the order. -/
theorem Accepts.perm {ts others : List Token} {settings : Settings} (accepts : Accepts ts settings)
    (perm : ts.Perm others) (once : ∀ flag, (values flag ts).length ≤ 1) :
    Accepts others settings where
  valid flag text? member := accepts.valid flag text? (perm.mem_iff.mpr member)
  known argument member := accepts.known argument (perm.mem_iff.mpr member)
  rom := by
    have words : (words ts).Perm (words others) := perm.filterMap _
    rw [accepts.rom, List.singleton_perm] at words
    exact words.symm
  scale := values_eq_of_perm perm (once .scale) ▸ accepts.scale
  cycle := values_eq_of_perm perm (once .speed) ▸ accepts.cycle

/-- The command line is taken exactly as its grammar says. -/
theorem ofArguments_grammar (arguments : List String) :
    ∃ ts, (∀ others, Reads arguments others ↔ others = ts) ∧
      (∀ settings, ofArguments arguments = .ok settings ↔ Accepts ts settings) ∧
      (∀ error, ofArguments arguments = .error error ↔ Refuses ts error) ∧
      ∀ moved others, Reads moved others → ts.Perm others →
        (∀ flag, (values flag ts).length ≤ 1) →
        ∀ settings, ofArguments moved = .ok settings ↔ ofArguments arguments = .ok settings := by
  refine ⟨tokens arguments, reads_iff arguments, ofArguments_eq_ok_iff, ofArguments_eq_error_iff,
    ?_⟩
  intro moved others reads perm once settings
  obtain rfl := (reads_iff moved others).mp reads
  rw [ofArguments_eq_ok_iff, ofArguments_eq_ok_iff]
  constructor
  · intro accepts
    refine accepts.perm perm.symm fun flag => ?_
    rw [← values_eq_of_perm perm (once flag)]
    exact once flag
  · exact fun accepts => accepts.perm perm once

/-- The rom is named first and last, and the flags change places. -/
theorem ofArguments_grammar_moved :
    ofArguments ["pong.ch8", "--speed", "1000", "--scale", "4"] = .ok ⟨"pong.ch8", 4, 1000000⟩ ∧
      ofArguments ["--scale", "4", "--speed", "1000", "pong.ch8"] =
        .ok ⟨"pong.ch8", 4, 1000000⟩ := by
  obtain ⟨ts, reads, -, -, order⟩ :=
    ofArguments_grammar ["pong.ch8", "--speed", "1000", "--scale", "4"]
  obtain rfl := (reads _).mp (.word (by decide) (.option .speed "1000" (.option .scale "4" .done)))
  have result : ofArguments ["pong.ch8", "--speed", "1000", "--scale", "4"] =
      .ok ⟨"pong.ch8", 4, 1000000⟩ := by decide
  refine ⟨result, (order _ _ (.option .scale "4" (.option .speed "1000" (.word (by decide) .done)))
    (by decide) ?_ _).mpr result⟩
  intro flag
  cases flag <;> decide

end Chip8.Settings
