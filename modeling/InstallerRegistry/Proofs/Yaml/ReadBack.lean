import InstallerRegistry.Proofs.Yaml.Source
import InstallerRegistry.Yaml.Node.Read

/-!
# Texts that are read as a value

A written value is read back if its text has this value (`IsReadAs`). The document is taken to be a
**plain** one, as writers make it: no node stands for another one, and the only tags are local ones.
Then a node is read without looking at the rest of the tree or counting what has been looked at
(`Document.isSteady_value`), and whoever reads a record from the nodes finds what the value says
(`NodeAt.isFaithful_holds`).
-/

namespace InstallerRegistry.Yaml

/-! ## Equality of values -/

namespace Value

mutual

/-- Are two values equal, with the order of their pairs? -/
def equal : Value → Value → Bool
  | null, null => true
  | boolean a, boolean b => a == b
  | number a, number b => a == b
  | text a, text b => a == b
  | sequence a, sequence b => equalItems a b
  | mapping a, mapping b => equalPairs a b
  | tagged s a, tagged t b => s == t && equal a b
  | _, _ => false

/-- Are two lists of values equal, item by item? -/
def equalItems : List Value → List Value → Bool
  | [], [] => true
  | a :: as, b :: bs => equal a b && equalItems as bs
  | _, _ => false

/-- Are two lists of pairs equal, pair by pair? -/
def equalPairs : List (Value × Value) → List (Value × Value) → Bool
  | [], [] => true
  | (k, v) :: as, (l, w) :: bs => equal k l && equal v w && equalPairs as bs
  | _, _ => false

end

mutual

theorem equal_iff : ∀ a b : Value, a.equal b = true ↔ a = b
  | .sequence a, b => by cases b <;> simp [equal, equalItems_iff a]
  | .mapping a, b => by cases b <;> simp [equal, equalPairs_iff a]
  | .tagged s a, b => by cases b <;> simp [equal, equal_iff a]
  | .null, b | .boolean _, b | .number _, b | .text _, b => by cases b <;> simp [equal]

theorem equalItems_iff : ∀ a b : List Value, equalItems a b = true ↔ a = b
  | [], b => by cases b <;> simp [equalItems]
  | a :: as, b => by cases b <;> simp [equalItems, equal_iff a, equalItems_iff as]

theorem equalPairs_iff : ∀ a b : List (Value × Value), equalPairs a b = true ↔ a = b
  | [], b => by cases b <;> simp [equalPairs]
  | (k, v) :: as, b => by
    cases b <;> simp [equalPairs, equal_iff k, equal_iff v, equalPairs_iff as, Prod.ext_iff]

end

instance : DecidableEq Value := fun a b => decidable_of_iff _ (equal_iff a b)

end Value

/-! ## Plain nodes -/

/-- Does the tag stay with the value? -/
def NodeTag.isLocal : NodeTag → Bool
  | named _ => true
  | _ => false

mutual

/-- Does the node stand for itself, with no tag or a local one, and so do all nodes inside it? -/
def Node.isPlain : Node → Bool
  | .alias _ => false
  | .scalar tag _ _ => tag.all NodeTag.isLocal
  | .sequence tag items => tag.all NodeTag.isLocal && Node.allPlain items
  | .mapping tag pairs => tag.all NodeTag.isLocal && Node.allPairsPlain pairs

/-- Are all of the nodes plain? -/
def Node.allPlain : List Node → Bool
  | [] => true
  | node :: nodes => node.isPlain && Node.allPlain nodes

/-- Are the nodes of all pairs plain? -/
def Node.allPairsPlain : List (Node × Node) → Bool
  | [] => true
  | (k, v) :: pairs => k.isPlain && v.isPlain && Node.allPairsPlain pairs

end

theorem Node.allPlain_iff {nodes : List Node} :
    Node.allPlain nodes = true ↔ ∀ node ∈ nodes, node.isPlain = true := by
  induction nodes with
  | nil => simp [Node.allPlain]
  | cons node nodes ih => simp [Node.allPlain, ih]

theorem Node.allPairsPlain_iff {pairs : List (Node × Node)} :
    Node.allPairsPlain pairs = true
      ↔ ∀ pair ∈ pairs, pair.1.isPlain = true ∧ pair.2.isPlain = true := by
  induction pairs with
  | nil => simp [Node.allPairsPlain]
  | cons pair pairs ih => simp [Node.allPairsPlain, ih]

/-- The text has the value, and is a document of plain nodes. -/
def IsReadAs (t : Text) (v : Value) : Prop :=
  Value.ofText? t = some v ∧ ∃ d ∈ Document.ofText? t, ∃ root ∈ d.root, root.isPlain = true

instance (t : Text) (v : Value) : Decidable (IsReadAs t v) := by
  unfold IsReadAs
  infer_instance

/-! ## Steady computations -/

/-- The computation neither looks at what is counted nor counts. -/
def IsSteady {α : Type} (x : ReadM α) : Prop :=
  ∃ o : Option α, x = (o : ReadM α)

section Steady

variable {α β : Type}

theorem isSteady_lift (o : Option α) : IsSteady (o : ReadM α) :=
  ⟨o, rfl⟩

theorem isSteady_pure (a : α) : IsSteady (pure a) :=
  ⟨some a, rfl⟩

theorem isSteady_failure : IsSteady (failure : ReadM α) :=
  ⟨none, rfl⟩

theorem IsSteady.bind {x : ReadM α} {f : α → ReadM β} (hx : IsSteady x)
    (hf : ∀ a, IsSteady (f a)) : IsSteady (x >>= f) := by
  obtain ⟨_ | a, rfl⟩ := hx
  · exact isSteady_failure
  · exact hf a

theorem isSteady_mapM {f : α → ReadM β} {l : List α} (h : ∀ a ∈ l, IsSteady (f a)) :
    IsSteady (l.mapM f) := by
  induction l with
  | nil => exact isSteady_pure []
  | cons a l ih =>
    obtain ⟨ha, hl⟩ := List.forall_mem_cons.1 h
    rw [List.mapM_cons]
    exact ha.bind fun b => (ih hl).bind fun bs => isSteady_pure (b :: bs)

/-- Different results are different computations. -/
theorem pure_inj {a b : α} : (pure a : ReadM α) = pure b ↔ a = b :=
  ⟨fun h => congrArg Prod.fst (Option.some.inj (congrFun h 0)), congrArg pure⟩

theorem IsSteady.bind_eq_pure_iff {x : ReadM α} {f : α → ReadM β} {b : β} (hx : IsSteady x) :
    x >>= f = pure b ↔ ∃ a, x = pure a ∧ f a = pure b := by
  obtain ⟨_ | a, rfl⟩ := hx
  · exact ⟨fun h => absurd (congrFun h 0) nofun, fun ⟨a, h, _⟩ => absurd (congrFun h 0) nofun⟩
  · refine ⟨fun h => ⟨a, rfl, h⟩, fun ⟨a', h, h'⟩ => ?_⟩
    rw [← pure_inj.1 h] at h'
    exact h'

theorem lift_eq_pure_iff {o : Option α} {a : α} : (o : ReadM α) = pure a ↔ o = some a := by
  cases o with
  | none => exact ⟨fun h => absurd (congrFun h 0) nofun, nofun⟩
  | some b => exact pure_inj.trans Option.some_inj.symm

/-- A traversal of steady steps gives the results of the steps. -/
theorem mapM_eq_pure_iff {f : α → ReadM β} {l : List α} {l' : List β}
    (h : ∀ a ∈ l, IsSteady (f a)) :
    l.mapM f = pure l' ↔ List.Forall₂ (fun a b => f a = pure b) l l' := by
  refine ⟨fun hl => ?_, mapM_eq_pure⟩
  induction l generalizing l' with
  | nil => exact pure_inj.1 hl ▸ .nil
  | cons a l ih =>
    obtain ⟨ha, hrest⟩ := List.forall_mem_cons.1 h
    rw [List.mapM_cons, ha.bind_eq_pure_iff] at hl
    obtain ⟨b, hb, hl⟩ := hl
    obtain ⟨bs, hbs, hl⟩ := (isSteady_mapM hrest).bind_eq_pure_iff.1 hl
    exact pure_inj.1 hl ▸ .cons hb (ih hrest hbs)

/-- What a steady computation returns for one count, it returns. -/
theorem IsSteady.eq_pure_of_run' {x : ReadM α} {a : α} {n : Nat} (hx : IsSteady x)
    (h : x.run' n = some a) : x = pure a := by
  obtain ⟨_ | b, rfl⟩ := hx
  · exact absurd h nofun
  · exact pure_inj.2 (Option.some.inj h)

end Steady

namespace Document

variable (d : Document) (depth : Nat) (tagged : Bool) (tag : Option NodeTag)

/-- The tag that counts for a node: none where a local one has been read already. -/
def ownTag : Option NodeTag :=
  if tagged then none else tag

theorem value_scalar (style : Style) (t : Text) :
    d.value depth tagged (.scalar tag style t)
      = ((scalarValue? (ownTag tagged tag) style t : Option Value) : ReadM Value) >>=
          fun v => pure (underTag (ownTag tagged tag) v) := by
  rw [Document.value]
  cases tagged <;> rfl

theorem value_sequence (items : List Node) :
    d.value (depth + 1) tagged (.sequence tag items)
      = items.mapM (d.value depth false) >>=
          fun vs => pure (underTag (ownTag tagged tag) (.sequence vs)) := by
  rw [Document.value]
  cases tagged <;> rfl

theorem value_mapping (pairs : List (Node × Node)) :
    d.value (depth + 1) tagged (.mapping tag pairs)
      = (pairs.mapM fun pair => do
          return (← d.value depth (tagged || (localTag? tag).isSome) pair.1,
            ← d.value depth false pair.2)) >>=
          fun vs => ((distinctPairs? vs : Option Mapping) : ReadM Mapping) >>=
            fun m => pure (underTag (ownTag tagged tag) (.mapping m)) := by
  rw [Document.value]
  cases tagged <;> rfl

/-- **A plain node is read on its own**, whatever has been counted before. -/
theorem isSteady_value {d : Document} {depth : Nat} {tagged : Bool} {node : Node}
    (h : node.isPlain = true) : IsSteady (d.value depth tagged node) := by
  -- every collection takes one level of depth, whatever the tree looks like
  induction depth generalizing tagged node with
  | zero =>
    rcases node with _ | ⟨tag, style, t⟩ | ⟨tag, items⟩ | ⟨tag, pairs⟩
    · exact absurd h nofun
    · rw [value_scalar]
      exact (isSteady_lift _).bind fun v => isSteady_pure _
    · rw [Document.value]
      exact isSteady_failure
    · rw [Document.value]
      exact isSteady_failure
  | succ depth ih =>
    rcases node with _ | ⟨tag, style, t⟩ | ⟨tag, items⟩ | ⟨tag, pairs⟩
    · exact absurd h nofun
    · rw [value_scalar]
      exact (isSteady_lift _).bind fun v => isSteady_pure _
    · have hitems := Node.allPlain_iff.1 (Bool.and_eq_true_iff.1 h).2
      rw [value_sequence]
      exact (isSteady_mapM fun item hitem => ih (hitems item hitem)).bind
        fun vs => isSteady_pure _
    · have hpairs := Node.allPairsPlain_iff.1 (Bool.and_eq_true_iff.1 h).2
      rw [value_mapping]
      refine (isSteady_mapM fun pair hpair => ?_).bind
        fun vs => (isSteady_lift _).bind fun m => isSteady_pure _
      obtain ⟨hkey, hvalue⟩ := hpairs pair hpair
      exact (ih hkey).bind fun k => (ih hvalue).bind fun v => isSteady_pure _

end Document

/-! ## What nodes hold -/

/-- What the value of a plain scalar says about its text. -/
inductive CoreSchema.Denotes (t : Text) : Value → Prop
  | null : Denotes t .null
  | boolean {b : Bool} (h : boolean? t = some b) : Denotes t (.boolean b)
  | integer {n : Int} (h : integer? t = some n) (hlow : -0x8000000000000000 ≤ n) :
    Denotes t (.number (.integer n))
  | float {x : Binary64} : Denotes t (.number (.float x))
  | text (h : (t.isEmpty || isNullWord t) = false) : Denotes t (.text t)

theorem CoreSchema.denotes_of_resolve {t : Text} {v : Value}
    (h : CoreSchema.resolve t = some v) : CoreSchema.Denotes t v := by
  unfold CoreSchema.resolve at h
  split at h
  next => exact Option.some.inj h ▸ .null
  next hnull =>
    have htext : Denotes t (.text t) := .text (Bool.not_eq_true _ ▸ hnull)
    split at h
    next b hb => exact Option.some.inj h ▸ .boolean hb
    next =>
      extract_lets asFloat at h
      have hfloat : Denotes t asFloat := by
        unfold asFloat
        split
        · exact htext
        · split
          · exact .float
          · exact htext
      split at h
      next n hn =>
        split at h
        next hrange =>
          rw [Bool.and_eq_true, decide_eq_true_iff] at hrange
          exact Option.some.inj h ▸ .integer hn hrange.1
        next =>
          split at h
          · exact absurd h nofun
          · exact Option.some.inj h ▸ hfloat
      next => exact Option.some.inj h ▸ hfloat

/-- Pairs whose keys all differ are the mapping of them. -/
theorem eq_of_distinctPairs? {pairs : List (Value × Value)} {m : Mapping}
    (h : distinctPairs? pairs = some m) : m = pairs := by
  have hfold : ∀ (l : List (Value × Value)) (before : Mapping),
      (l.foldlM (fun m pair => if Mapping.hasKey m pair.1 then none else some (m ++ [pair])) before)
        = some m → m = before ++ l := by
    intro l
    induction l with
    | nil =>
      intro before hl
      rw [List.append_nil]
      exact (Option.some.inj hl).symm
    | cons pair l ih =>
      intro before hl
      rw [List.foldlM_cons] at hl
      split at hl
      · exact absurd hl nofun
      · rw [ih _ hl, List.append_assoc]
        rfl
  exact hfold pairs [] h

theorem eq_none_or_named {tag : Option NodeTag} (h : tag.all NodeTag.isLocal = true) :
    tag = none ∨ ∃ t, tag = some (.named t) := by
  rcases tag with _ | tag
  · exact .inl rfl
  · cases tag with
    | named t => exact .inr ⟨t, rfl⟩
    | _ => exact absurd h nofun

namespace NodeAt

variable {d : Document} {p : NodeAt d} {v : Value}

/-- The node is plain, and this is its value. -/
def Holds (p : NodeAt d) (v : Value) : Prop :=
  p.node.isPlain = true ∧ p.value = pure v

/-- What a node is that holds a value. Of a value under a tag nothing is said. -/
inductive Shows : NodeAt d → Value → Prop
  | plain {depth : Nat} {t : Text} {v : Value} (h : CoreSchema.Denotes t v) :
    Shows ⟨depth, .scalar none .plain t⟩ v
  | quoted {depth : Nat} {style : Style} {t : Text} (h : style ≠ .plain) :
    Shows ⟨depth, .scalar none style t⟩ (.text t)
  | sequence {depth : Nat} {items : List Node} {vs : List Value}
    (h : List.Forall₂ (fun item v => Holds (d := d) ⟨depth, item⟩ v) items vs) :
    Shows ⟨depth + 1, .sequence none items⟩ (.sequence vs)
  | mapping {depth : Nat} {pairs : List (Node × Node)} {m : Mapping}
    (h : List.Forall₂ (fun pair v =>
      Holds (d := d) ⟨depth, pair.1⟩ v.1 ∧ Holds (d := d) ⟨depth, pair.2⟩ v.2) pairs m)
    (hdistinct : distinctPairs? m = some m) :
    Shows ⟨depth + 1, .mapping none pairs⟩ (.mapping m)
  | tagged {p : NodeAt d} {tag : Tag} {v : Value} : Shows p (.tagged tag v)

theorem shows_of_scalar {depth : Nat} {tag : Option NodeTag} {style : Style} {t : Text}
    (h : Holds (d := d) ⟨depth, .scalar tag style t⟩ v) :
    Shows (d := d) ⟨depth, .scalar tag style t⟩ v := by
  obtain ⟨hplain, hvalue⟩ := h
  change d.value depth false _ = pure v at hvalue
  rw [Document.value_scalar, (isSteady_lift _).bind_eq_pure_iff] at hvalue
  obtain ⟨w, hw, hv⟩ := hvalue
  rw [lift_eq_pure_iff] at hw
  cases pure_inj.1 hv
  rcases eq_none_or_named hplain with rfl | ⟨tag, rfl⟩
  · show Shows _ w
    change (if style = .plain then _ else _) = _ at hw
    split at hw
    next hstyle =>
      subst hstyle
      exact .plain (CoreSchema.denotes_of_resolve hw)
    next hstyle =>
      cases hw
      exact .quoted hstyle
  · exact .tagged

theorem shows_of_sequence {depth : Nat} {tag : Option NodeTag} {items : List Node}
    (h : Holds (d := d) ⟨depth, .sequence tag items⟩ v) :
    Shows (d := d) ⟨depth, .sequence tag items⟩ v := by
  obtain ⟨hplain, hvalue⟩ := h
  obtain ⟨htag, hitems⟩ := Bool.and_eq_true_iff.1 hplain
  rw [Node.allPlain_iff] at hitems
  change d.value depth false _ = pure v at hvalue
  rcases depth with _ | depth
  · rw [Document.value] at hvalue
    exact absurd (congrFun hvalue 0) nofun
  have hsteady : ∀ item ∈ items, IsSteady (d.value depth false item) :=
    fun item hitem => Document.isSteady_value (hitems item hitem)
  rw [Document.value_sequence, (isSteady_mapM hsteady).bind_eq_pure_iff] at hvalue
  obtain ⟨vs, hvs, hv⟩ := hvalue
  rw [mapM_eq_pure_iff hsteady] at hvs
  cases pure_inj.1 hv
  rcases eq_none_or_named htag with rfl | ⟨tag, rfl⟩
  · exact .sequence ((List.forall₂_and_left items vs).2 ⟨hitems, hvs⟩)
  · exact .tagged

theorem shows_of_mapping {depth : Nat} {tag : Option NodeTag} {pairs : List (Node × Node)}
    (h : Holds (d := d) ⟨depth, .mapping tag pairs⟩ v) :
    Shows (d := d) ⟨depth, .mapping tag pairs⟩ v := by
  obtain ⟨hplain, hvalue⟩ := h
  obtain ⟨htag, hpairs⟩ := Bool.and_eq_true_iff.1 hplain
  rw [Node.allPairsPlain_iff] at hpairs
  change d.value depth false _ = pure v at hvalue
  rcases depth with _ | depth
  · rw [Document.value] at hvalue
    exact absurd (congrFun hvalue 0) nofun
  -- keys are read under the tag of the mapping, which is only known to be missing further down
  have hkey : ∀ keysTagged, ∀ pair ∈ pairs, IsSteady (d.value depth keysTagged pair.1) :=
    fun _ pair hpair => Document.isSteady_value (hpairs pair hpair).1
  have hinner : ∀ pair ∈ pairs, IsSteady (d.value depth false pair.2) :=
    fun pair hpair => Document.isSteady_value (hpairs pair hpair).2
  have hpair : ∀ keysTagged, ∀ pair ∈ pairs, IsSteady (do
      return (← d.value depth keysTagged pair.1, ← d.value depth false pair.2)) :=
    fun keysTagged pair hmem => (hkey keysTagged pair hmem).bind fun k =>
      (hinner pair hmem).bind fun w => isSteady_pure (k, w)
  rw [Document.value_mapping, (isSteady_mapM (hpair _)).bind_eq_pure_iff] at hvalue
  obtain ⟨vs, hvs, hvalue⟩ := hvalue
  obtain ⟨m, hdistinct, hv⟩ := (isSteady_lift _).bind_eq_pure_iff.1 hvalue
  rw [lift_eq_pure_iff] at hdistinct
  obtain rfl := eq_of_distinctPairs? hdistinct
  rw [mapM_eq_pure_iff (hpair _)] at hvs
  cases pure_inj.1 hv
  rcases eq_none_or_named htag with rfl | ⟨tag, rfl⟩
  · refine .mapping (((List.forall₂_and_left pairs m).2 ⟨fun _ h => h, hvs⟩).imp ?_) hdistinct
    rintro pair ⟨k, w⟩ ⟨hmem, hread⟩
    obtain ⟨k', hk, hread⟩ := (hkey _ pair hmem).bind_eq_pure_iff.1 hread
    obtain ⟨w', hw, hread⟩ := (hinner pair hmem).bind_eq_pure_iff.1 hread
    cases pure_inj.1 hread
    exact ⟨⟨(hpairs pair hmem).1, hk⟩, (hpairs pair hmem).2, hw⟩
  · exact .tagged

theorem Holds.shows (h : p.Holds v) : p.Shows v := by
  obtain ⟨depth, _ | ⟨tag, style, t⟩ | ⟨tag, items⟩ | ⟨tag, pairs⟩⟩ := p
  · exact absurd h.1 nofun
  · exact shows_of_scalar h
  · exact shows_of_sequence h
  · exact shows_of_mapping h

theorem pairs_mapping (depth : Nat) (tag : Option NodeTag) (nodes : List (Node × Node)) :
    pairs (d := d) ⟨depth + 1, .mapping tag nodes⟩
      = pure (nodes.map fun pair => (⟨depth, pair.1⟩, ⟨depth, pair.2⟩)) := by
  refine lift_eq_pure_iff.2 (mapM_eq_pure ?_)
  exact List.forall₂_map_right_iff.2 (List.forall₂_same.2 fun _ _ => rfl)

theorem fields_eq (p : NodeAt d) :
    Readable.fields p = p.pairs >>= fun places =>
      places.mapM fun pair => do return (← scalarText pair.1, pair.2) :=
  rfl

theorem mapping_eq (p : NodeAt d) :
    Readable.mapping p = p.pairs >>= fun places =>
      (places.mapM fun pair => do return (← pair.1.value, ← pair.2.value)) >>= fun vs =>
        ((distinctPairs? vs : Option Mapping) : ReadM Mapping) :=
  rfl

/-- The text of a node that holds one, however it is written. -/
theorem scalarText_of_holds {t : Text} (h : p.Holds (.text t)) : p.scalarText = pure t := by
  cases h.shows with
  | plain hdenotes =>
    cases hdenotes
    rfl
  | quoted => rfl

/-- **The nodes of a document are faithful**: whoever reads them finds what their values say. -/
theorem isFaithful_holds : Readable.IsFaithful (Holds (d := d)) where
  text h := scalarText_of_holds h
  boolean {p b} h := by
    cases h.shows with
    | plain hdenotes =>
      cases hdenotes with
      | boolean hb => exact lift_eq_pure_iff.2 hb
  integer {p n} h hn := by
    cases h.shows with
    | @plain _ t _ hdenotes =>
      cases hdenotes with
      | integer hread hlow =>
        refine lift_eq_pure_iff.2 ?_
        rw [CoreSchema.int64?, hread, Option.filter_some, if_pos]
        exact Bool.and_eq_true_iff.2 ⟨decide_eq_true hlow, decide_eq_true hn⟩
  given {p t} h := by
    refine ⟨p, ?_, h⟩
    cases h.shows with
    | plain hdenotes =>
      cases hdenotes with
      | text hnull =>
        show (do
          let absent ← ((isAbsent none .plain t : Option Bool) : ReadM Bool)
          return if absent then none else some _) = _
        rw [lift_eq_pure_iff.2 (show isAbsent none .plain t = some false from congrArg some hnull),
          pure_bind]
        rfl
    | @quoted _ style _ hstyle =>
      have hgiven : isAbsent none style t = some false := if_pos (bne_iff_ne.2 hstyle)
      show (do
        let absent ← ((isAbsent none style t : Option Bool) : ReadM Bool)
        return if absent then none else some _) = _
      rw [lift_eq_pure_iff.2 hgiven, pure_bind]
      rfl
  items {p vs} h := by
    cases h.shows with
    | plain hdenotes => exact absurd hdenotes nofun
    | @sequence depth items _ hitems =>
      refine ⟨items.map fun item => ⟨depth, item⟩, ?_, List.forall₂_map_left_iff.2 hitems⟩
      refine lift_eq_pure_iff.2 (mapM_eq_pure ?_)
      exact List.forall₂_map_right_iff.2 (List.forall₂_same.2 fun _ _ => rfl)
  fields {p pairs} h htexts := by
    cases h.shows with
    | plain hdenotes => exact absurd hdenotes nofun
    | @mapping depth nodes _ hpairs =>
      have hnamed := (List.forall₂_and_left pairs nodes).2 ⟨htexts, hpairs.flip⟩
      obtain ⟨fs, hread, hholds⟩ := exists_between_of_forall₂ hnamed.flip
        (S := fun node (f : Text × NodeAt d) =>
          scalarText (d := d) ⟨depth, node.1⟩ = pure f.1 ∧ ⟨depth, node.2⟩ = f.2)
        (T := fun f pair => pair.1 = .text f.1 ∧ f.2.Holds pair.2)
        fun node pair ⟨⟨t, ht⟩, hkey, hvalue⟩ => by
          rw [ht] at hkey
          exact ⟨(t, ⟨depth, node.2⟩), ⟨scalarText_of_holds hkey, rfl⟩, ht, hvalue⟩
      refine ⟨fs, ?_, hholds⟩
      rw [fields_eq, pairs_mapping, pure_bind]
      refine mapM_eq_pure (List.forall₂_map_left_iff.2 (hread.imp fun node f ⟨hname, hplace⟩ => ?_))
      rw [hname, pure_bind, hplace]
  mapping {p m} h := by
    cases h.shows with
    | plain hdenotes => exact absurd hdenotes nofun
    | @mapping depth nodes _ hpairs hdistinct =>
      have hread : (nodes.map fun pair => (⟨depth, pair.1⟩, ⟨depth, pair.2⟩)).mapM
          (fun pair : NodeAt d × NodeAt d => do return (← pair.1.value, ← pair.2.value))
            = pure m := by
        refine mapM_eq_pure (List.forall₂_map_left_iff.2 (hpairs.imp fun pair v hpair => ?_))
        rw [hpair.1.2, pure_bind, hpair.2.2, pure_bind]
      rw [mapping_eq, pairs_mapping, pure_bind, hread, pure_bind]
      exact lift_eq_pure_iff.2 hdistinct

end NodeAt

/-- A text that is read as a value is a document whose root holds it. -/
theorem IsReadAs.exists_root {t : Text} {v : Value} (h : IsReadAs t v) :
    ∃ d root, Document.ofText? t = some d ∧ d.root = some root
      ∧ NodeAt.Holds (d := d) ⟨nestingLimit, root⟩ v := by
  obtain ⟨hvalue, d, hd, root, hroot, hplain⟩ := h
  rw [Option.mem_def] at hd hroot
  rw [Value.ofText?, hd, Option.bind_eq_bind, Option.bind_some, hroot] at hvalue
  exact ⟨d, root, hd, hroot, hplain, (Document.isSteady_value hplain).eq_pure_of_run' hvalue⟩

end InstallerRegistry.Yaml
