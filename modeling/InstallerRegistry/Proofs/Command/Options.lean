import InstallerRegistry.Command.Arguments
import InstallerRegistry.Proofs.Except
import InstallerRegistry.Proofs.Text.Cutting
import Mathlib.Data.List.Nodup

/-!
# Options of a command line

What a command line says about an option is described here by how options are spelled: by the name
or the letter, with the value behind an equals sign, directly behind the letter, or in the next
argument (`Command.Mentions`, `Command.Gives`). Nothing is said behind `--`.

The options that are read are those that are spelled (`Arguments.lookup_read_iff`). An argument that
is taken adds to the options what it says, and leaves an option over exactly if it mentions one
without its value (`Arguments.adds_take`); what all arguments add follows by induction on them
(`Arguments.adds_readFrom`).
-/

namespace InstallerRegistry.Command

/-! ## Spellings -/

/-- **Letters mention an option**, with its value, or without if the value is still to come. The
letters of options without values can stand before its own. -/
inductive InLetters (u : Usage) (s : Switch) : Text → Option Text → Prop
  | flag {c : Char} {rest : Text} (hs : s ∈ u.switches) (htakes : s.takes = .nothing)
      (hletter : s.letter = some c) : InLetters u s (c :: rest) (some [])
  | value {c : Char} {rest : Text} (hs : s ∈ u.switches) (htakes : s.takes ≠ .nothing)
      (hletter : s.letter = some c) : InLetters u s (c :: rest) (Arguments.attached? rest)
  | later {f : Switch} {c : Char} {rest : Text} {value : Option Text} (hf : f ∈ u.switches)
      (htakes : f.takes = .nothing) (hletter : f.letter = some c)
      (hrest : InLetters u s rest value) : InLetters u s (c :: rest) value

/-- **An argument mentions an option**, with its value, or without if the value is still to come.
The value of an option that takes none is empty. -/
inductive Mentions (u : Usage) (s : Switch) : Text → Option Text → Prop
  | flag (hs : s ∈ u.switches) (htakes : s.takes = .nothing) :
      Mentions u s ('-' :: '-' :: s.name) (some [])
  | name (hs : s ∈ u.switches) (htakes : s.takes ≠ .nothing) :
      Mentions u s ('-' :: '-' :: s.name) none
  | value (value : Text) (hs : s ∈ u.switches) (htakes : s.takes ≠ .nothing) :
      Mentions u s ('-' :: '-' :: (s.name ++ '=' :: value)) (some value)
  | letters {letters : Text} {value : Option Text} (h : InLetters u s letters value) :
      Mentions u s ('-' :: letters) value

/-- **Arguments give an option a value**, before `--`. -/
inductive Gives (u : Usage) (s : Switch) (value : Text) : List Text → Prop
  | attached {t : Text} {rest : List Text} (h : Mentions u s t (some value)) :
      Gives u s value (t :: rest)
  | next {t : Text} {rest : List Text} (h : Mentions u s t none) :
      Gives u s value (t :: value :: rest)
  | later {t : Text} {rest : List Text} (ht : t ≠ ['-', '-']) (h : Gives u s value rest) :
      Gives u s value (t :: rest)

/-! ## Usages -/

/-- **No argument can mean two options**: their names and letters differ, and none looks like a part
of something else. -/
structure Usage.IsPlain (u : Usage) : Prop where
  nodup_names : (u.switches.map Switch.name).Nodup
  letters : ∀ s ∈ u.switches, ∀ s' ∈ u.switches,
    s.letter = s'.letter → s.letter = none ∨ s.name = s'.name
  names : ∀ s ∈ u.switches, s.name ≠ [] ∧ '=' ∉ s.name
  letter_ne : ∀ s ∈ u.switches, s.letter ≠ some '-'

namespace Usage.IsPlain

variable {u : Usage} {s s' : Switch} {c : Char}

theorem eq_of_name (h : u.IsPlain) (hs : s ∈ u.switches) (hs' : s' ∈ u.switches)
    (hname : s.name = s'.name) : s = s' :=
  List.inj_on_of_nodup_map h.nodup_names hs hs' hname

theorem eq_of_letter (h : u.IsPlain) (hs : s ∈ u.switches) (hs' : s' ∈ u.switches)
    (hletter : s.letter = some c) (hletter' : s'.letter = some c) : s = s' := by
  obtain hnone | hname := h.letters s hs s' hs' (hletter.trans hletter'.symm)
  · exact absurd (hletter.symm.trans hnone) nofun
  · exact h.eq_of_name hs hs' hname

end Usage.IsPlain

section

variable {u : Usage} {s s' : Switch} {c : Char} {t rest : Text} {value : Option Text}

/-! ### What a spelling mentions -/

theorem inLetters_flag_iff (h : u.IsPlain) (hs' : s' ∈ u.switches) (htakes : s'.takes = .nothing)
    (hletter : s'.letter = some c) :
    InLetters u s (c :: rest) value ↔ s = s' ∧ value = some [] ∨ InLetters u s rest value := by
  constructor
  · rintro (⟨hs, _, hc⟩ | ⟨hs, hvalue, hc⟩ | ⟨_, _, _, hrest⟩)
    · exact .inl ⟨h.eq_of_letter hs hs' hc hletter, rfl⟩
    · obtain rfl := h.eq_of_letter hs hs' hc hletter
      exact absurd htakes hvalue
    · exact .inr hrest
  · rintro (⟨rfl, rfl⟩ | hrest)
    · exact .flag hs' htakes hletter
    · exact .later hs' htakes hletter hrest

theorem inLetters_value_iff (h : u.IsPlain) (hs' : s' ∈ u.switches) (htakes : s'.takes ≠ .nothing)
    (hletter : s'.letter = some c) :
    InLetters u s (c :: rest) value ↔ s = s' ∧ value = Arguments.attached? rest := by
  constructor
  · rintro (⟨hs, hflag, hc⟩ | ⟨hs, _, hc⟩ | ⟨hf, hflag, hc, _⟩)
    · obtain rfl := h.eq_of_letter hs hs' hc hletter
      exact absurd hflag htakes
    · exact ⟨h.eq_of_letter hs hs' hc hletter, rfl⟩
    · obtain rfl := h.eq_of_letter hf hs' hc hletter
      exact absurd hflag htakes
  · rintro ⟨rfl, rfl⟩
    exact .value hs' htakes hletter

theorem not_inLetters_nil : ¬ InLetters u s [] value := nofun

/-- No option has the letter that options begin with. -/
theorem not_inLetters_dash (h : u.IsPlain) : ¬ InLetters u s ('-' :: rest) value := by
  rintro (⟨hs, _, hc⟩ | ⟨hs, _, hc⟩ | ⟨hf, _, hc, _⟩)
  · exact h.letter_ne _ hs hc
  · exact h.letter_ne _ hs hc
  · exact h.letter_ne _ hf hc

theorem mentions_letters_iff (hc : c ≠ '-') :
    Mentions u s ('-' :: c :: rest) value ↔ InLetters u s (c :: rest) value := by
  constructor
  · intro h
    cases h with
    | flag => exact absurd rfl hc
    | name => exact absurd rfl hc
    | value => exact absurd rfl hc
    | letters h => exact h
  · exact .letters

theorem longOption_eq_none_iff {name : Text} (h : '=' ∉ name) :
    Arguments.longOption t = (name, none) ↔ t = name := by
  unfold Arguments.longOption
  cases hcut : Text.cut? '=' t with
  | some parts =>
    refine ⟨nofun, ?_⟩
    rintro rfl
    exact absurd (hcut.symm.trans (Text.cut?_of_notMem h)) nofun
  | none => exact ⟨fun heq => congrArg Prod.fst heq, fun heq => congrArg (·, none) heq⟩

theorem longOption_eq_some_iff {name v : Text} (h : '=' ∉ name) :
    Arguments.longOption t = (name, some v) ↔ t = name ++ '=' :: v := by
  unfold Arguments.longOption
  cases hcut : Text.cut? '=' t with
  | some parts =>
    obtain ⟨a, b⟩ := parts
    constructor
    · intro heq
      cases heq
      exact Text.eq_of_cut? hcut
    · rintro rfl
      cases hcut.symm.trans (Text.cut?_append h v)
      rfl
  | none =>
    refine ⟨nofun, ?_⟩
    rintro rfl
    exact absurd (hcut.symm.trans (Text.cut?_append h v)) nofun

/-- Behind two dashes, an option is mentioned by its name. -/
theorem mentions_long_iff (h : u.IsPlain) (hs' : s' ∈ u.switches)
    (hname : (Arguments.longOption t).1 = s'.name) :
    Mentions u s ('-' :: '-' :: t) value
      ↔ s = s' ∧ (s'.takes = .nothing ∧ (Arguments.longOption t).2 = none ∧ value = some []
        ∨ s'.takes ≠ .nothing ∧ (Arguments.longOption t).2 = value) := by
  have hspelled : ∀ {v}, s ∈ u.switches → Arguments.longOption t = (s.name, v) →
      s = s' ∧ (Arguments.longOption t).2 = v := fun hs hlong =>
    ⟨h.eq_of_name hs hs' ((congrArg Prod.fst hlong).symm.trans hname), congrArg Prod.snd hlong⟩
  constructor
  · intro hmentions
    cases hmentions with
    | flag hs htakes =>
      obtain ⟨rfl, hnone⟩ := hspelled hs ((longOption_eq_none_iff (h.names s hs).2).2 rfl)
      exact ⟨rfl, .inl ⟨htakes, hnone, rfl⟩⟩
    | name hs htakes =>
      obtain ⟨rfl, hnone⟩ := hspelled hs ((longOption_eq_none_iff (h.names s hs).2).2 rfl)
      exact ⟨rfl, .inr ⟨htakes, hnone⟩⟩
    | value v hs htakes =>
      obtain ⟨rfl, hvalue⟩ := hspelled hs ((longOption_eq_some_iff (h.names s hs).2).2 rfl)
      exact ⟨rfl, .inr ⟨htakes, hvalue⟩⟩
    | letters hletters => exact absurd hletters (not_inLetters_dash h)
  · rintro ⟨rfl, ⟨htakes, hnone, rfl⟩ | ⟨htakes, hvalue⟩⟩
    · obtain rfl := (longOption_eq_none_iff (h.names s hs').2).1 (Prod.ext hname hnone)
      exact .flag hs' htakes
    · cases value with
      | none =>
        obtain rfl := (longOption_eq_none_iff (h.names s hs').2).1 (Prod.ext hname hvalue)
        exact .name hs' htakes
      | some v =>
        obtain rfl := (longOption_eq_some_iff (h.names s hs').2).1 (Prod.ext hname hvalue)
        exact .value v hs' htakes

theorem not_mentions_terminator (h : u.IsPlain) : ¬ Mentions u s ['-', '-'] value := by
  generalize hlong : ([] : Text) = t
  intro hmentions
  cases hmentions with
  | flag hs | name hs => exact (h.names s hs).1 hlong.symm
  | value v hs => exact List.append_ne_nil_of_right_ne_nil s.name (List.cons_ne_nil '=' v) hlong.symm
  | letters hletters => exact not_inLetters_dash h hletters

/-- An operand mentions nothing, even behind an option that is waiting for its value. -/
theorem not_mentions_of_isOperand (ht : Arguments.isOperand t) : ¬ Mentions u s t value := by
  rintro (⟨_, _⟩ | ⟨_, _⟩ | ⟨_, _, _⟩ | hletters)
  · exact absurd ht nofun
  · exact absurd ht nofun
  · exact absurd ht nofun
  · cases hletters <;> exact absurd ht nofun

theorem InLetters.mem (h : InLetters u s t value) : s ∈ u.switches := by
  induction h with
  | flag hs | value hs => exact hs
  | later _ _ _ _ ih => exact ih

theorem Mentions.mem (h : Mentions u s t value) : s ∈ u.switches := by
  cases h with
  | flag hs | name hs | value _ hs => exact hs
  | letters h => exact h.mem

theorem Gives.mem {v : Text} {ts : List Text} (h : Gives u s v ts) : s ∈ u.switches := by
  induction h with
  | attached h | next h => exact h.mem
  | later _ _ ih => exact ih

theorem gives_cons_iff {v : Text} {rest : List Text} :
    Gives u s v (t :: rest)
      ↔ Mentions u s t (some v) ∨ Mentions u s t none ∧ rest.head? = some v
        ∨ t ≠ ['-', '-'] ∧ Gives u s v rest := by
  constructor
  · rintro (h | h | ⟨ht, h⟩)
    · exact .inl h
    · exact .inr (.inl ⟨h, rfl⟩)
    · exact .inr (.inr ⟨ht, h⟩)
  · rintro (h | ⟨h, hhead⟩ | ⟨ht, h⟩)
    · exact .attached h
    · obtain ⟨rest, rfl⟩ := List.head?_eq_some_iff.1 hhead
      exact .next h
    · exact .later ht h

end

/-! ## Taking arguments -/

namespace Arguments

/-- **The options are those of before and what is said** about the options of the command. -/
def Adds (u : Usage) (args args' : Arguments) (said : Switch → Text → Prop) : Prop :=
  ∀ s ∈ u.switches, ∀ v, args'.options.lookup s.name = some v
    ↔ args.options.lookup s.name = some v ∨ said s v

section

variable {u : Usage} {args args' args'' : Arguments} {s : Switch} {value : Text}
  {pending : Option Switch} {said said' : Switch → Text → Prop}

theorem Adds.of_eq (h : args'.options = args.options) : Adds u args args' fun _ _ => False := by
  intro s _ v
  rw [h, or_false]

theorem Adds.trans (h : Adds u args args' said) (h' : Adds u args' args'' said') :
    Adds u args args'' fun s v => said s v ∨ said' s v := by
  intro s hs v
  rw [h' s hs, h s hs, or_assoc]

theorem Adds.congr (h : Adds u args args' said) (hsaid : ∀ s v, said s v ↔ said' s v) :
    Adds u args args' said' := by
  intro s hs v
  rw [h s hs, hsaid]

theorem adds_addOption (hu : u.IsPlain) (hs : s ∈ u.switches)
    (h : args.addOption s value = .ok args') :
    Adds u args args' fun s' v => s' = s ∧ v = value := by
  unfold addOption at h
  split at h
  next => cases h
  next hnew =>
    cases h
    have hnone : args.options.lookup s.name = none := by
      simpa only [has, Option.isSome_iff_ne_none, ne_eq, not_not] using hnew
    intro s' hs' v
    rw [List.lookup_append]
    by_cases hname : s'.name = s.name
    · obtain rfl := hu.eq_of_name hs' hs hname
      simp [hnone, eq_comm]
    · have hne : s' ≠ s := fun heq => hname (congrArg Switch.name heq)
      have hlast : List.lookup s'.name [(s.name, value)] = none := by
        rw [List.lookup_cons, beq_false_of_ne hname]
        rfl
      rw [hlast, Option.or_none]
      exact (or_iff_left fun h => hne h.1).symm

theorem adds_addValue (hu : u.IsPlain) (hs : s ∈ u.switches)
    (h : args.addValue s value = .ok args') :
    Adds u args args' (fun s' v => s' = s ∧ v = value) ∧ s.takes ≠ .nothing := by
  unfold addValue at h
  split at h
  next hallows =>
    refine ⟨adds_addOption hu hs h, fun htakes => ?_⟩
    rw [htakes] at hallows
    exact absurd hallows nofun
  next => cases h

theorem options_addOperand {t : Text} (h : args.addOperand u t = .ok args') :
    args'.options = args.options := by
  unfold addOperand at h
  split at h
  next => cases h; rfl
  next => cases h

/-- **What an argument adds**, by letters. -/
theorem adds_takeLetters (hu : u.IsPlain) {letters : Text}
    (h : takeLetters u args letters = .ok (args', pending)) :
    Adds u args args' (fun s v => InLetters u s letters (some v))
      ∧ ∀ s, pending = some s ↔ InLetters u s letters none := by
  induction letters generalizing args with
  | nil =>
    cases h
    exact ⟨(Adds.of_eq rfl).congr fun s v => iff_of_false not_false not_inLetters_nil,
      fun s => iff_of_false nofun not_inLetters_nil⟩
  | cons c rest ih =>
    unfold takeLetters at h
    split at h
    next => cases h
    next s hfind =>
      have hs := List.mem_of_find?_eq_some hfind
      have hletter : s.letter = some c := by simpa using List.find?_some hfind
      split at h
      next htakes =>
        obtain ⟨args₁, hadd, h⟩ := bind_eq_ok_iff.1 h
        obtain ⟨hrest, hpending⟩ := ih h
        refine ⟨((adds_addOption hu hs hadd).trans hrest).congr fun s' v => ?_, fun s' => ?_⟩
        · rw [inLetters_flag_iff hu hs htakes hletter, Option.some.injEq]
        · rw [hpending, inLetters_flag_iff hu hs htakes hletter]
          exact ⟨.inr, fun h => h.resolve_left fun ⟨_, h⟩ => absurd h nofun⟩
      next htakes =>
        simp only [inLetters_value_iff hu hs htakes hletter]
        split at h
        next value hattached =>
          obtain ⟨args₁, hadd, h⟩ := bind_eq_ok_iff.1 h
          cases h
          refine ⟨(adds_addValue hu hs hadd).1.congr fun s' v => ?_, fun s' => ?_⟩
          · rw [hattached, Option.some.injEq]
          · rw [hattached]
            exact iff_of_false nofun fun ⟨_, h⟩ => absurd h nofun
        next hattached =>
          cases h
          refine ⟨(Adds.of_eq rfl).congr fun s' v => ?_, fun s' => ?_⟩
          · rw [hattached]
            exact iff_of_false not_false fun ⟨_, h⟩ => absurd h nofun
          · rw [hattached, Option.some.injEq]
            exact ⟨fun h => ⟨h.symm, rfl⟩, fun h => h.1.symm⟩

theorem name_of_find? {name : Text} (h : u.switches.find? (·.name == name) = some s) :
    name = s.name := by
  have hname : s.name = name := by simpa using List.find?_some h
  exact hname.symm

/-- **What an argument adds**, by a name. -/
theorem adds_takeLong (hu : u.IsPlain) {t : Text}
    (h : takeLong u args (longOption t).1 (longOption t).2 = .ok (args', pending)) :
    Adds u args args' (fun s v => Mentions u s ('-' :: '-' :: t) (some v))
      ∧ ∀ s, pending = some s ↔ Mentions u s ('-' :: '-' :: t) none := by
  unfold takeLong at h
  split at h
  next s v hfind hvalue =>
    have hs := List.mem_of_find?_eq_some hfind
    have hname := name_of_find? hfind
    obtain ⟨args₁, hadd, h⟩ := bind_eq_ok_iff.1 h
    cases h
    obtain ⟨hadds, htakes⟩ := adds_addValue hu hs hadd
    simp only [mentions_long_iff hu hs hname, hvalue, htakes]
    refine ⟨hadds.congr fun s' v => ?_, fun s' => ?_⟩
    · simp [htakes, eq_comm]
    · simp
  next s hfind hnone =>
    have hs := List.mem_of_find?_eq_some hfind
    have hname := name_of_find? hfind
    simp only [mentions_long_iff hu hs hname, hnone]
    split at h
    next htakes =>
      obtain ⟨args₁, hadd, h⟩ := bind_eq_ok_iff.1 h
      cases h
      refine ⟨(adds_addOption hu hs hadd).congr fun s' v => ?_, fun s' => ?_⟩
      · simp [htakes]
      · simp [htakes]
    next htakes =>
      have hne : s.takes ≠ .nothing := htakes
      cases h
      refine ⟨(Adds.of_eq rfl).congr fun s' v => ?_, fun s' => ?_⟩
      · simp [hne]
      · simp [hne, eq_comm]
  next => cases h
  next => cases h

/-- **What an argument adds**: what it says. An option is left over if it is mentioned without its
value. -/
theorem adds_take (hu : u.IsPlain) {t : Text} (h : take u args t = .ok (args', pending)) :
    Adds u args args' (fun s v => Mentions u s t (some v))
      ∧ ∀ s, pending = some s ↔ Mentions u s t none := by
  unfold take at h
  split at h
  next t => exact adds_takeLong hu h
  next c t hdash =>
    simp only [mentions_letters_iff hdash]
    exact adds_takeLetters hu h
  next hlong hletters =>
    obtain ⟨args₁, hadd, h⟩ := bind_eq_ok_iff.1 h
    cases h
    have ht : isOperand t := by
      unfold isOperand
      split
      next c rest => exact absurd rfl (hletters c rest)
      next => rfl
    exact ⟨(Adds.of_eq (options_addOperand hadd)).congr fun s v =>
      iff_of_false not_false (not_mentions_of_isOperand ht),
      fun s => iff_of_false nofun (not_mentions_of_isOperand ht)⟩

theorem options_foldlM_addOperand {ts : List Text}
    (h : ts.foldlM (addOperand u) args = .ok args') : args'.options = args.options := by
  induction ts generalizing args with
  | nil => cases h; rfl
  | cons t ts ih =>
    obtain ⟨args₁, hadd, h⟩ := bind_eq_ok_iff.1 (List.foldlM_cons.symm.trans h)
    rw [ih h, options_addOperand hadd]

/-- **What arguments add**: the value of an option that is waiting for it, and what they give. -/
theorem adds_readFrom (hu : u.IsPlain) {ts : List Text}
    (hpending : ∀ s, pending = some s → s ∈ u.switches)
    (h : readFrom u args pending ts = .ok args') :
    Adds u args args' fun s v => pending = some s ∧ ts.head? = some v ∨ Gives u s v ts := by
  induction ts generalizing args pending with
  | nil =>
    unfold readFrom at h
    split at h
    next => cases h
    next =>
      cases h
      refine (Adds.of_eq rfl).congr fun s v => iff_of_false not_false ?_
      rintro (⟨_, ⟨⟩⟩ | hgives)
      cases hgives
  | cons t rest ih =>
    cases pending with
    | some s =>
      simp only [readFrom] at h
      split at h
      next ht =>
        obtain ⟨args₁, hadd, h⟩ := bind_eq_ok_iff.1 h
        have hadds := (adds_addValue hu (hpending s rfl) hadd).1
        have hrest := ih (by simp) h
        refine (hadds.trans hrest).congr fun s' v => ?_
        have hterminator : t ≠ ['-', '-'] := by
          rintro rfl
          exact absurd ht nofun
        have hmentions : ∀ value, ¬ Mentions u s' t value := fun _ => not_mentions_of_isOperand ht
        simp [gives_cons_iff, hmentions, hterminator, eq_comm]
      next => cases h
    | none =>
      simp only [readFrom] at h
      split at h
      next hterminator =>
        obtain rfl : t = ['-', '-'] := beq_iff_eq.1 hterminator
        refine (Adds.of_eq (options_foldlM_addOperand h)).congr fun s v => ?_
        have hmentions : ∀ value, ¬ Mentions u s ['-', '-'] value := fun _ =>
          not_mentions_terminator hu
        simp [gives_cons_iff, hmentions]
      next hterminator =>
        obtain ⟨⟨args₁, pending⟩, htake, h⟩ := bind_eq_ok_iff.1 h
        obtain ⟨hadds, hleft⟩ := adds_take hu htake
        have hmem : ∀ s, pending = some s → s ∈ u.switches := fun s hs => ((hleft s).1 hs).mem
        refine (hadds.trans (ih hmem h)).congr fun s v => ?_
        have ht : t ≠ ['-', '-'] := fun heq => hterminator (beq_iff_eq.2 heq)
        simp [gives_cons_iff, hleft, ht]

/-- **The options that are read are those that the arguments give.** -/
theorem lookup_read_iff (hu : u.IsPlain) {ts : List Text} (hs : s ∈ u.switches)
    (h : read u ts = .ok args) : args.options.lookup s.name = some value ↔ Gives u s value ts := by
  obtain ⟨args', hread, h⟩ := bind_eq_ok_iff.1 h
  split at h
  next =>
    cases h
    rw [adds_readFrom hu (by simp) hread s hs value]
    simp
  next => cases h

end

end Arguments

/-! ## Commands -/

/-- What a command takes. -/
def usage : Command → Usage
  | init _ _ => ⟨0, [outputSwitch, forceSwitch]⟩
  | generate _ _ => ⟨1, [outputSwitch]⟩
  | validate _ _ => ⟨1, [verboseSwitch]⟩
  | list _ _ => ⟨1, [formatSwitch]⟩
  | convert _ _ _ => ⟨1, [outputSwitch, featureSwitch]⟩

theorem isPlain_usage (command : Command) : command.usage.IsPlain := by
  cases command <;> rw [usage] <;> exact ⟨by decide, by decide, by decide, by decide⟩

/-- The file that a command is told to write. -/
def output? : Command → Option Text
  | init output _ => some output
  | generate _ output => output
  | validate _ _ => none
  | list _ _ => none
  | convert _ output _ => output

/-- **The arguments of a command name a file for output**, or leave it to the file that a sample
manifest is usually written to. -/
inductive OutputIs (ts : List Text) : Command → Text → Prop
  | given {command : Command} {path : Text} (h : Gives command.usage outputSwitch path ts) :
      OutputIs ts command path
  | usual {output : Text} {force : Bool}
      (h : ∀ path, ¬ Gives (init output force).usage outputSwitch path ts) :
      OutputIs ts (init output force) defaultOutput

/-- What has been read stands in the command. -/
def HoldsOptions (args : Arguments) : Command → Prop
  | init output force =>
    output = (args.options.lookup outputSwitch.name).getD defaultOutput
      ∧ force = args.has forceSwitch.name
  | generate _ output => output = args.options.lookup outputSwitch.name
  | validate _ verbose => verbose = args.has verboseSwitch.name
  | list _ format =>
    format = if args.options.lookup formatSwitch.name = some jsonWord then .json else .text
  | convert _ output feature =>
    output = args.options.lookup outputSwitch.name
      ∧ feature = args.options.lookup featureSwitch.name

theorem exists_read_of_eq_ok {u : Usage} {ts : List Text} {f : Arguments → Command}
    {command : Command} (h : (do return f (← Arguments.read u ts)) = Except.ok command) :
    ∃ args, Arguments.read u ts = .ok args ∧ f args = command := by
  obtain ⟨args, hread, h⟩ := bind_eq_ok_iff.1 h
  exact ⟨args, hread, Except.ok.inj h⟩

theorem ofName_eq_ok {name : Text} {ts : List Text} {command : Command}
    (h : ofName name ts = .ok command) :
    ∃ args, Arguments.read command.usage ts = .ok args ∧ HoldsOptions args command := by
  unfold ofName at h
  split at h
  next =>
    obtain ⟨args, hread, rfl⟩ := exists_read_of_eq_ok h
    exact ⟨args, hread, rfl, rfl⟩
  split at h
  next =>
    obtain ⟨args, hread, rfl⟩ := exists_read_of_eq_ok h
    exact ⟨args, hread, rfl⟩
  split at h
  next =>
    obtain ⟨args, hread, rfl⟩ := exists_read_of_eq_ok h
    exact ⟨args, hread, rfl⟩
  split at h
  next =>
    obtain ⟨args, hread, rfl⟩ := exists_read_of_eq_ok h
    exact ⟨args, hread, rfl⟩
  split at h
  next =>
    obtain ⟨args, hread, rfl⟩ := exists_read_of_eq_ok h
    exact ⟨args, hread, rfl, rfl⟩
  next => cases h

/-- **A command line has a command** only if its arguments can be read, and then it holds them. -/
theorem ofArguments_eq_ok {arguments : List Text} {command : Command}
    (h : ofArguments arguments = .ok command) :
    ∃ args, Arguments.read command.usage arguments.tail = .ok args ∧ HoldsOptions args command := by
  unfold ofArguments at h
  split at h
  next => cases h
  next name ts =>
    split at h
    next => cases h
    split at h
    next => cases h
    next => exact ofName_eq_ok h

section

variable {arguments ts : List Text} {command : Command} {output path : Text} {force : Bool}

theorem outputIs_iff_of_not_init (h : ∀ output force, command ≠ init output force) :
    OutputIs ts command path ↔ Gives command.usage outputSwitch path ts := by
  constructor
  · intro houtput
    cases houtput with
    | given h => exact h
    | usual => exact absurd rfl (h _ _)
  · exact .given

theorem outputIs_init_iff {value : Option Text}
    (h : ∀ v, value = some v ↔ Gives (init output force).usage outputSwitch v ts) :
    OutputIs ts (init output force) path ↔ value.getD defaultOutput = path := by
  cases value with
  | none =>
    have hnone : ∀ v, ¬ Gives (init output force).usage outputSwitch v ts :=
      fun v hv => absurd ((h v).2 hv).symm (Option.some_ne_none v)
    constructor
    · intro houtput
      cases houtput with
      | given hv => exact absurd hv (hnone path)
      | usual => rfl
    · rintro rfl
      exact .usual hnone
  | some v =>
    have hv := (h v).1 rfl
    constructor
    · intro houtput
      cases houtput with
      | given hpath => exact Option.some.inj ((h path).2 hpath)
      | usual hnone => exact absurd hv (hnone v)
    · rintro rfl
      exact .given hv

/-- **The file that a command is told to write** is the one that its arguments name. -/
theorem output?_eq_some_iff (h : ofArguments arguments = .ok command) :
    command.output? = some path ↔ OutputIs arguments.tail command path := by
  obtain ⟨args, hread, hholds⟩ := ofArguments_eq_ok h
  have hlookup : ∀ s ∈ command.usage.switches, ∀ v,
      args.options.lookup s.name = some v ↔ Gives command.usage s v arguments.tail :=
    fun s hs v => Arguments.lookup_read_iff (isPlain_usage command) hs hread
  cases command with
  | init output force =>
    have houtput := hholds.1
    rw [outputIs_init_iff (hlookup outputSwitch List.mem_cons_self), output?, Option.some.injEq,
      houtput]
  | generate manifest output =>
    obtain rfl : output = _ := hholds
    rw [outputIs_iff_of_not_init (by simp)]
    exact hlookup outputSwitch List.mem_cons_self path
  | convert exportFile output feature =>
    obtain ⟨rfl, -⟩ := hholds
    rw [outputIs_iff_of_not_init (by simp)]
    exact hlookup outputSwitch List.mem_cons_self path
  | validate manifest other | list manifest other =>
    rw [outputIs_iff_of_not_init (by simp)]
    refine iff_of_false (by simp [output?]) fun hgives => ?_
    have hname := congrArg Switch.name (List.eq_of_mem_singleton hgives.mem)
    exact absurd hname (by decide)

/-- **A file is overwritten by force** only if the arguments say so. -/
theorem force_iff (h : ofArguments arguments = .ok (init output force)) :
    force = true ↔ ∃ value, Gives (init output force).usage forceSwitch value arguments.tail := by
  obtain ⟨args, hread, -, rfl⟩ := ofArguments_eq_ok h
  rw [Arguments.has, Option.isSome_iff_exists]
  refine exists_congr fun value => Arguments.lookup_read_iff (isPlain_usage _) ?_ hread
  exact List.mem_cons_of_mem _ List.mem_cons_self

end

end InstallerRegistry.Command
