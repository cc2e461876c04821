import GraphMeasures.Host
import GraphMeasures.Proofs.Text.Encoding
import Mathlib

/-!
# GraphMeasures — which texts are thread counts

A text is read as a number with the blanks around it taken away. What is left has to be
digits behind an optional plus sign, and none of these characters is a blank: so the texts
that are read are those that `Text.Spells` builds, whatever blanks stand around the number
and however many zeros in front of it (`unsignedValue?_trimChars`). Zero and what is no
word are refused after this (`parseThreads_grammar`).
-/

namespace GraphMeasures

namespace Text

variable {cs before after word digits : List Char} {c : Char} {n : ℕ}

/-! ## Blanks -/

/-- Characters all of which are blanks. -/
def Blanks (cs : List Char) : Prop :=
  ∀ c ∈ cs, isBlank c = true

theorem Blanks.reverse (h : Blanks cs) : Blanks cs.reverse :=
  fun c hc => h c (List.mem_reverse.1 hc)

/-- What is taken from the front of a text as long as there are blanks is
blanks. -/
theorem blanks_takeWhile (cs : List Char) : Blanks (cs.takeWhile isBlank) :=
  fun _ hc => List.mem_takeWhile_imp hc

/-- What is taken away are blanks, in front and behind. -/
theorem exists_blanks (cs : List Char) :
    ∃ before after, Blanks before ∧ Blanks after ∧ cs = before ++ trimChars cs ++ after := by
  refine ⟨cs.takeWhile isBlank, ((cs.dropWhile isBlank).reverse.takeWhile isBlank).reverse,
    blanks_takeWhile _, (blanks_takeWhile _).reverse, ?_⟩
  -- the blanks behind are put back first, then those in front
  rw [trimChars, List.append_assoc, ← List.reverse_append, List.takeWhile_append_dropWhile,
    List.reverse_reverse, List.takeWhile_append_dropWhile]

/-- Nothing is dropped where something other than a blank stands first. -/
theorem dropWhile_word (hne : word ≠ []) (hword : ∀ c ∈ word, isBlank c = false)
    (rest : List Char) : (word ++ rest).dropWhile isBlank = word ++ rest := by
  obtain ⟨c, cs, rfl⟩ := List.exists_cons_of_ne_nil hne
  rw [List.cons_append, List.dropWhile_cons_of_neg]
  rw [hword c List.mem_cons_self]
  exact Bool.false_ne_true

/-- Around a word without blanks, all blanks are taken away and nothing else;
the word has to have a character, or the blanks before it and behind it could
not be told apart. -/
theorem trimChars_word (hbefore : Blanks before) (hafter : Blanks after) (hne : word ≠ [])
    (hword : ∀ c ∈ word, isBlank c = false) : trimChars (before ++ word ++ after) = word := by
  -- read from behind, the word starts with something other than a blank too
  have hback := dropWhile_word (List.reverse_ne_nil_iff.2 hne)
    (fun c hc => hword c (List.mem_reverse.1 hc)) []
  rw [List.append_nil] at hback
  rw [trimChars, List.append_assoc, List.dropWhile_append_of_pos hbefore,
    dropWhile_word hne hword, List.reverse_append, List.dropWhile_append_of_pos hafter.reverse,
    hback, List.reverse_reverse]

/-! ## Digits -/

/-- The value of a digit. -/
def digitOf (c : Char) : ℕ :=
  c.toNat - '0'.toNat

theorem isBlank_plus : isBlank '+' = false := by decide

/-- Digits are no blanks. Every range of the table ends below them or starts
above. -/
theorem isBlank_digit (h : c.isDigit = true) : isBlank c = false := by
  -- a range of blanks lies below the digits or above them
  have hapart : ∀ range ∈ blankRanges, range.2 < '0'.toNat ∨ '9'.toNat < range.1 := by decide
  rw [Char.isDigit_iff_toNat] at h
  rw [isBlank, Ranges.covers, List.any_eq_false]
  intro range hrange
  have := hapart range hrange
  rw [Bool.and_eq_true, decide_eq_true_iff, decide_eq_true_iff]
  omega

/-- A character is read as a digit exactly if it is one of the ten. -/
theorem digit?_eq (c : Char) : digit? c = if c.isDigit then some (digitOf c) else none := rfl

/-- A text is read digit by digit if it has nothing but digits, and then there
is one value for each of them, in their order. -/
theorem mapM_digit?_eq_some_iff {values : List ℕ} :
    cs.mapM digit? = some values ↔ (∀ c ∈ cs, c.isDigit = true) ∧ values = cs.map digitOf := by
  -- digit by digit; a character that is none fails the whole
  induction cs generalizing values with
  | nil =>
    show some [] = some values ↔ _
    rw [Option.some.injEq, List.map_nil, eq_comm]
    exact (and_iff_right fun c hc => absurd hc List.not_mem_nil).symm
  | cons c cs ih =>
    rw [List.mapM_cons, digit?_eq, List.forall_mem_cons, List.map_cons]
    by_cases hc : c.isDigit = true
    · rw [if_pos hc]
      show ((cs.mapM digit?).bind fun rest => some (digitOf c :: rest)) = some values ↔ _
      rw [Option.bind_eq_some_iff]
      constructor
      · rintro ⟨rest, hrest, hvalues⟩
        obtain ⟨hall, rfl⟩ := ih.1 hrest
        exact ⟨⟨hc, hall⟩, (Option.some.inj hvalues).symm⟩
      · rintro ⟨⟨-, hall⟩, rfl⟩
        exact ⟨_, ih.2 ⟨hall, rfl⟩, rfl⟩
    · rw [if_neg hc]
      exact iff_of_false (by rintro ⟨⟩) fun h => hc h.1.1

/-- The highest digit stands first, so what is read is the number with these
digits from behind. -/
theorem digitsValue_eq (values : List ℕ) : digitsValue values = Nat.ofDigits 10 values.reverse := by
  rw [Nat.ofDigits_eq_foldr, List.foldr_reverse, digitsValue]
  congr 1
  funext n d
  rw [Nat.cast_id, mul_comm, add_comm]

/-- A text is a decimal number if it has digits, at least one, and nothing
else. -/
theorem decimalValue?_eq_some_iff :
    decimalValue? cs = some n ↔ cs ≠ [] ∧ (∀ c ∈ cs, c.isDigit = true) ∧
      n = Nat.ofDigits 10 (cs.map digitOf).reverse := by
  unfold decimalValue?
  split
  · -- an empty text has no value, though its sum of digits would be zero
    next hempty =>
    exact iff_of_false (by rintro ⟨⟩) fun h => h.1 (List.isEmpty_iff.1 hempty)
  · next hsome =>
    have hne : cs ≠ [] := fun h => hsome (List.isEmpty_iff.2 h)
    rw [Option.map_eq_some_iff]
    constructor
    · rintro ⟨values, hvalues, rfl⟩
      obtain ⟨hall, rfl⟩ := mapM_digit?_eq_some_iff.1 hvalues
      exact ⟨hne, hall, digitsValue_eq _⟩
    · rintro ⟨-, hall, rfl⟩
      exact ⟨_, mapM_digit?_eq_some_iff.2 ⟨hall, rfl⟩, digitsValue_eq _⟩

/-! ## Numbers -/

/-- The texts that spell a number: blanks, perhaps a plus sign, digits, blanks. -/
inductive Spells : List Char → ℕ → Prop
  | intro {before sign digits after : List Char} (hbefore : Blanks before)
      (hsign : sign = [] ∨ sign = ['+']) (hsome : digits ≠ [])
      (hdigits : ∀ c ∈ digits, c.isDigit = true) (hafter : Blanks after) :
      Spells (before ++ (sign ++ digits) ++ after) (Nat.ofDigits 10 (digits.map digitOf).reverse)

end Text

open Text

variable {cs : List Char} {raw : String} {n : ℕ}

/-- One plus sign may stand in front of a decimal number. A text with two of
them is none, because signs are no digits, and neither is a sign alone, because
it has no digit. -/
theorem unsignedValue?_eq_some_iff :
    unsignedValue? cs = some n ↔ ∃ sign digits, (sign = [] ∨ sign = ['+']) ∧
      cs = sign ++ digits ∧ decimalValue? digits = some n := by
  constructor
  · intro h
    unfold unsignedValue? at h
    split at h
    · next digits => exact ⟨['+'], digits, .inr rfl, rfl, h⟩
    · exact ⟨[], cs, .inl rfl, rfl, h⟩
  · rintro ⟨sign, digits, rfl | rfl, rfl, h⟩
    · unfold unsignedValue?
      split
      · next rest =>
        -- a plus sign is no digit
        have hplus := (decimalValue?_eq_some_iff.1 h).2.1 '+' List.mem_cons_self
        exact absurd hplus (by decide)
      · exact h
    · exact h

/-- Read with the blanks taken away, a text is the number that it spells.
Neither the sign nor the digits are blanks, so nothing of the number is taken
away with them. -/
theorem unsignedValue?_trimChars : unsignedValue? (trimChars cs) = some n ↔ Spells cs n := by
  constructor
  · intro h
    -- what is left by trimming is a sign and digits, and blanks were around it
    obtain ⟨sign, digits, hsign, hword, hvalue⟩ := unsignedValue?_eq_some_iff.1 h
    obtain ⟨hsome, hdigits, rfl⟩ := decimalValue?_eq_some_iff.1 hvalue
    obtain ⟨before, after, hbefore, hafter, hcs⟩ := exists_blanks cs
    rw [hcs, hword]
    exact .intro hbefore hsign hsome hdigits hafter
  · rintro @⟨before, sign, digits, after, hbefore, hsign, hsome, hdigits, hafter⟩
    -- no blank is left inside, so that trimming leaves the sign and the digits
    have hword : ∀ c ∈ sign ++ digits, isBlank c = false := by
      intro c hc
      obtain hc | hc := List.mem_append.1 hc
      · obtain rfl | rfl := hsign
        · exact absurd hc List.not_mem_nil
        · rw [List.mem_singleton.1 hc, isBlank_plus]
      · exact isBlank_digit (hdigits c hc)
    rw [trimChars_word hbefore hafter (List.append_ne_nil_of_right_ne_nil _ hsome) hword]
    exact unsignedValue?_eq_some_iff.2
      ⟨sign, digits, hsign, rfl, decimalValue?_eq_some_iff.2 ⟨hsome, hdigits, rfl⟩⟩

/-! ## Thread counts -/

/-- A number that is spelt and fits is read. -/
theorem parseThreads_read (h : Spells raw.toList n) (hpositive : 1 ≤ n) (hword : n ≤ 2 ^ 64 - 1) :
    parseThreads raw = .ok n := by
  have hrange : (decide (1 ≤ n) && decide (n ≤ Index.top)) = true := by
    rw [decide_eq_true hpositive, decide_eq_true (show n ≤ Index.top from hword), Bool.and_self]
  rw [parseThreads, unsignedValue?_trimChars.2 h]
  exact if_pos hrange

/-- What is refused is shown as it was, with the blanks around it. -/
theorem parseThreads_refused (h : ¬ ∃ n, Spells raw.toList n ∧ 1 ≤ n ∧ n ≤ 2 ^ 64 - 1) :
    parseThreads raw = .error (.invalidThreadCount raw) := by
  rw [parseThreads]
  split
  · next n hn =>
    refine if_neg fun hrange => h ⟨n, unsignedValue?_trimChars.1 hn, ?_⟩
    rwa [Bool.and_eq_true, decide_eq_true_iff, decide_eq_true_iff] at hrange
  · rfl

/-- Settings have the threads that the variable spells, or its error. -/
theorem RunConfig.ofVariable_text (seed : UInt64) (raw : String) :
    ofVariable seed (.text raw) = (parseThreads raw).map fun n => ⟨seed, some n, none⟩ := by
  show (parseThreads raw >>= fun n => pure (RunConfig.mk seed (some n) none)) = _
  cases parseThreads raw <;> rfl

/-- **Thread counts are the texts that spell one.** For every text: a number of threads is
read exactly where the text spells it and it is neither zero nor above the words, and any
other text is refused and shown as it was. Settings made from a variable that is set to the
bytes of the text have this number, or this error, be they those of a run or, for options
with a seed, those of a request. -/
theorem parseThreads_grammar (raw : String) :
    (∀ n, parseThreads raw = .ok n ↔ Spells raw.toList n ∧ 1 ≤ n ∧ n ≤ 2 ^ 64 - 1) ∧
    (parseThreads raw = .error (.invalidThreadCount raw) ↔
      ¬ ∃ n, Spells raw.toList n ∧ 1 ≤ n ∧ n ≤ 2 ^ 64 - 1) ∧
    (∀ seed, RunConfig.ofVariable seed (.ofBytes raw.toUTF8.data.toList) =
      (parseThreads raw).map fun n => ⟨seed, some n, none⟩) ∧
    (∀ (o : Options) seed scope, o.seed = .ok seed →
      o.runConfig (.ofBytes raw.toUTF8.data.toList) scope =
        ((parseThreads raw).map fun n => ⟨seed, some n, scope⟩).mapError .engine) := by
  rw [Variable.ofBytes_encoded]
  refine ⟨fun n => ⟨fun h => ?_, fun h => parseThreads_read h.1 h.2.1 h.2.2⟩,
    ⟨fun h hread => ?_, parseThreads_refused⟩, fun seed => ?_, fun o seed scope hseed => ?_⟩
  · by_cases hread : ∃ n, Spells raw.toList n ∧ 1 ≤ n ∧ n ≤ 2 ^ 64 - 1
    · obtain ⟨m, hspells, hpositive, hword⟩ := hread
      obtain rfl : m = n := Except.ok.inj ((parseThreads_read hspells hpositive hword).symm.trans h)
      exact ⟨hspells, hpositive, hword⟩
    · rw [parseThreads_refused hread] at h
      contradiction
  · obtain ⟨n, hspells, hpositive, hword⟩ := hread
    rw [parseThreads_read hspells hpositive hword] at h
    contradiction
  · exact RunConfig.ofVariable_text seed raw
  · rw [Options.runConfig, hseed]
    -- the scope only shows in the tag of the workers
    show ((RunConfig.ofVariable seed (.text raw)).mapError _ >>= _) = _
    rw [RunConfig.ofVariable_text]
    cases parseThreads raw <;> rfl

/-- Blanks that are no spaces, a plus sign and zeros in front are read over: the
number is 7, and so it is in the configuration of a run that finds it in its
environment. -/
theorem parseThreads_grammar_padded :
    let raw := "\u00a0+007\n"
    parseThreads raw = .ok 7 ∧ Options.empty.seed = .ok 1 ∧
      Options.empty.runConfig (.ofBytes raw.toUTF8.data.toList) none = .ok ⟨1, some 7, none⟩ := by
  intro raw
  obtain ⟨haccepted, -, -, hconfig⟩ := parseThreads_grammar raw
  have hspells : Spells (['\u00a0'] ++ (['+'] ++ ['0', '0', '7']) ++ ['\n'])
      (Nat.ofDigits 10 (['0', '0', '7'].map digitOf).reverse) :=
    .intro (List.forall_mem_singleton.2 (by decide)) (.inr rfl) (List.cons_ne_nil _ _)
      (List.all_eq_true.1 rfl) (List.forall_mem_singleton.2 (by decide))
  have htext : raw.toList = ['\u00a0', '+', '0', '0', '7', '\n'] := String.toList_ofList
  have hread : parseThreads raw = .ok 7 := by
    refine (haccepted 7).2 ⟨?_, by norm_num, by norm_num⟩
    rw [htext]
    exact hspells
  have hseed : Options.empty.seed = .ok 1 := by rfl
  refine ⟨hread, hseed, ?_⟩
  rw [hconfig Options.empty 1 none hseed, hread]
  rfl

example : parseThreads " + " = .error (.invalidThreadCount " + ") := rfl
example : parseThreads "18446744073709551615" = .ok 18446744073709551615 := rfl

end GraphMeasures
