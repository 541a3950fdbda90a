import G2mirror.Library.JsonText

/-!
# Changing a document at one place

A key of the outermost object is found where a string and a colon stand at depth
one. A value that is put at the end of its array changes this array of the
document and nothing else.
-/

namespace JsonText

/-- What one token does to the reader. -/
inductive Moved (limit : ℕ) : State → Token → State → Prop
  /-- A string or a scalar is a value. -/
  | leaf {stack mode t doc} (hmode : mode = .value ∨ mode = .firstItem)
      (hleaf : ∃ raw, t = .string raw ∧ isString raw = true ∧ doc = .string raw ∨
        t = .scalar raw ∧ isScalar raw = true ∧ doc = .scalar raw) :
      Moved limit ⟨stack, mode⟩ t (complete doc stack)
  | opens {stack mode b} (hmode : mode = .value ∨ mode = .firstItem)
      (hroom : stack.length < limit) : Moved limit ⟨stack, mode⟩ (.opens b) (b.opened stack)
  | closes {stack mode b s'} (hmode : mode = .firstItem ∨ mode = .firstKey ∨ mode = .after)
      (hclose : close b stack = some s') : Moved limit ⟨stack, mode⟩ (.closes b) s'
  | key {members old stack mode raw} (hmode : mode = .firstKey ∨ mode = .key)
      (hraw : isString raw = true) :
      Moved limit ⟨.object members old :: stack, mode⟩ (.string raw)
        ⟨.object members raw :: stack, .colon⟩
  | colon {stack} : Moved limit ⟨stack, .colon⟩ .colon ⟨stack, .value⟩
  | comma {stack s'} (hnext : separate stack = some s') : Moved limit ⟨stack, .after⟩ .comma s'

variable {limit : ℕ} {s s' : State} {t : Token}

theorem begin_eq_some {stack : List Frame} {mode : Mode}
    (hmode : mode = .value ∨ mode = .firstItem) (h : begin limit stack t = some s') :
    Moved limit ⟨stack, mode⟩ t s' := by
  cases t with
  | string raw =>
    obtain ⟨hraw, hsome⟩ := Option.ite_none_right_eq_some.mp h
    obtain rfl := Option.some.inj hsome
    exact .leaf hmode ⟨raw, .inl ⟨rfl, hraw, rfl⟩⟩
  | scalar raw =>
    obtain ⟨hraw, hsome⟩ := Option.ite_none_right_eq_some.mp h
    obtain rfl := Option.some.inj hsome
    exact .leaf hmode ⟨raw, .inr ⟨rfl, hraw, rfl⟩⟩
  | opens b =>
    obtain ⟨hroom, hsome⟩ := Option.ite_none_right_eq_some.mp h
    obtain rfl := Option.some.inj hsome
    exact .opens hmode hroom
  | closes b => cases h
  | comma => cases h
  | colon => cases h

theorem setKey_eq_some {stack : List Frame} {mode : Mode} {raw : List UInt8}
    (hmode : mode = .firstKey ∨ mode = .key) (h : setKey raw stack = some s') :
    Moved limit ⟨stack, mode⟩ (.string raw) s' := by
  unfold setKey at h
  split at h
  · obtain ⟨hraw, hsome⟩ := Option.ite_none_right_eq_some.mp h
    obtain rfl := Option.some.inj hsome
    exact .key hmode hraw
  · cases h

/-- All that a token can do. -/
theorem moved_of_step (h : step limit s t = some s') : Moved limit s t s' := by
  obtain ⟨stack, mode⟩ := s
  unfold step at h
  cases mode with
  | value => exact begin_eq_some (.inl rfl) h
  | firstItem =>
    cases t with
    | closes b => exact .closes (.inl rfl) h
    | opens b | comma | colon | string raw | scalar raw => exact begin_eq_some (.inr rfl) h
  | firstKey =>
    cases t with
    | closes b => exact .closes (.inr (.inl rfl)) h
    | string raw => exact setKey_eq_some (.inl rfl) h
    | opens b | comma | colon | scalar raw => cases h
  | key =>
    cases t with
    | string raw => exact setKey_eq_some (.inr rfl) h
    | closes b | opens b | comma | colon | scalar raw => cases h
  | colon =>
    obtain ⟨rfl, hsome⟩ := Option.ite_none_right_eq_some.mp h
    obtain rfl := Option.some.inj hsome
    exact .colon
  | after =>
    cases t with
    | comma => exact .comma h
    | closes b => exact .closes (.inr (.inr rfl)) h
    | opens b | colon | string raw | scalar raw => cases h
  | done doc => cases h

/-- It does all of it. -/
theorem step_of_moved (h : Moved limit s t s') : step limit s t = some s' := by
  cases h with
  | leaf hmode hleaf =>
    obtain ⟨raw, ⟨rfl, hraw, rfl⟩ | ⟨rfl, hraw, rfl⟩⟩ := hleaf
    · rcases hmode with rfl | rfl <;> exact if_pos hraw
    · rcases hmode with rfl | rfl <;> exact if_pos hraw
  | opens hmode hroom => rcases hmode with rfl | rfl <;> exact if_pos hroom
  | closes hmode hclose => rcases hmode with rfl | rfl | rfl <;> exact hclose
  | key hmode hraw => rcases hmode with rfl | rfl <;> exact if_pos hraw
  | colon => rfl
  | comma hnext => exact hnext

theorem run_cons (limit : ℕ) (s : State) (t : Token) (ts : List Token) :
    run limit s (t :: ts) = (step limit s t).bind fun s' => run limit s' ts := rfl

theorem run_append (limit : ℕ) (s : State) (ts ts' : List Token) :
    run limit s (ts ++ ts') = (run limit s ts).bind fun s' => run limit s' ts' :=
  List.foldlM_append

theorem run_cons_eq_some {ts : List Token} (h : run limit s (t :: ts) = some s') :
    ∃ next, Moved limit s t next ∧ run limit next ts = some s' := by
  rw [run_cons] at h
  obtain ⟨next, hnext, hrun⟩ := Option.bind_eq_some_iff.mp h
  exact ⟨next, moved_of_step hnext, hrun⟩

theorem run_of_moved {next : State} {ts : List Token} (h : Moved limit s t next)
    (hrun : run limit next ts = some s') : run limit s (t :: ts) = some s' := by
  rw [run_cons, step_of_moved h]
  exact hrun

/-- After a document there is nothing. -/
theorem run_done {doc : Doc} {stack : List Frame} {ts : List Token}
    (h : run limit ⟨stack, .done doc⟩ ts = some s') : ts = [] ∧ s' = ⟨stack, .done doc⟩ := by
  cases ts with
  | nil => exact ⟨rfl, (Option.some.inj h).symm⟩
  | cons t ts =>
    obtain ⟨next, hmoved, -⟩ := run_cons_eq_some h
    cases step_of_moved hmoved

/-- A document is read when the stack is empty. -/
theorem readTokens_eq_some_iff {ts : List Token} {doc : Doc} :
    readTokens limit ts = some doc ↔ ∃ stack, run limit .start ts = some ⟨stack, .done doc⟩ := by
  unfold readTokens
  constructor
  · intro h
    obtain ⟨⟨stack, mode⟩, hrun, hmode⟩ := Option.bind_eq_some_iff.mp h
    cases mode with
    | done doc' =>
      obtain rfl := Option.some.inj hmode
      exact ⟨stack, hrun⟩
    | value | firstItem | firstKey | key | colon | after => cases hmode
  · rintro ⟨stack, hrun⟩
    rw [hrun]
    rfl

/-- What a string or scalar has to be. -/
def Token.Valid : Token → Prop
  | .string raw => isString raw = true
  | .scalar raw => isScalar raw = true
  | _ => True

theorem Moved.valid (h : Moved limit s t s') : t.Valid := by
  cases h with
  | leaf hmode hleaf => obtain ⟨raw, ⟨rfl, hraw, -⟩ | ⟨rfl, hraw, -⟩⟩ := hleaf <;> exact hraw
  | key hmode hraw => exact hraw
  | opens hmode hroom => trivial
  | closes hmode hclose => trivial
  | colon => trivial
  | comma hnext => trivial

/-- All strings and scalars that are read are valid. -/
theorem valid_of_run {ts : List Token} (h : run limit s ts = some s') : ∀ t ∈ ts, t.Valid := by
  induction ts generalizing s with
  | nil => exact List.forall_mem_nil _
  | cons t ts ih =>
    obtain ⟨next, hmoved, hrun⟩ := run_cons_eq_some h
    exact List.forall_mem_cons.mpr ⟨hmoved.valid, ih hrun⟩

/-- The bytes that lexemes of a document consist of. -/
def Lexeme.Plain : Lexeme → Prop
  | .string raw => ∀ b ∈ raw, 0x20 ≤ b.toNat
  | .byte b => b.toNat < 0x80 ∧ b ≠ 0x2f ∧ (JsonText.isSpace b = true ∨ 0x20 < b.toNat)

/-- Outside of strings a document is visible ASCII without slashes, and whitespace. -/
theorem plain_of_readTokens {us : List Lexeme} {doc : Doc}
    (h : readTokens limit (tokens [] us) = some doc) : ∀ u ∈ us, u.Plain := by
  obtain ⟨stack, hrun⟩ := readTokens_eq_some_iff.mp h
  have hvalid := valid_of_run hrun
  intro u hu
  cases u with
  | string raw =>
    obtain ⟨before, after, rfl⟩ := List.append_of_mem hu
    rw [tokens_append_token rfl] at hvalid
    exact printable_of_isString (hvalid _ (List.mem_append_right _ List.mem_cons_self))
  | byte b =>
    rcases (Lexeme.byte b).kinds with ⟨t, ht⟩ | hspace | ⟨c, hc, hpunct, hspace⟩
    · have hpunct : punct? b = some t := ht
      unfold punct? at hpunct
      split_ifs at hpunct with h1 h2 h3 h4 h5 h6
      · rw [h1]; exact ⟨by decide, by decide, .inr (by decide)⟩
      · rw [h2]; exact ⟨by decide, by decide, .inr (by decide)⟩
      · rw [h3]; exact ⟨by decide, by decide, .inr (by decide)⟩
      · rw [h4]; exact ⟨by decide, by decide, .inr (by decide)⟩
      · rw [h5]; exact ⟨by decide, by decide, .inr (by decide)⟩
      · rw [h6]; exact ⟨by decide, by decide, .inr (by decide)⟩
    · have hspace' : JsonText.isSpace b = true := hspace
      have hcases := hspace'
      unfold JsonText.isSpace at hcases
      simp only [Bool.or_eq_true, decide_eq_true_eq] at hcases
      refine ⟨?_, ?_, .inl hspace'⟩
      · rcases hcases with ((rfl | rfl) | rfl) | rfl <;> decide
      · rcases hcases with ((rfl | rfl) | rfl) | rfl <;> decide
    · obtain rfl := Lexeme.byte.inj hc
      obtain ⟨raw, hraw, hmem⟩ := @exists_scalar us [] b hu hpunct hspace
      obtain ⟨hlow, hhigh, hslash⟩ := plain_of_isScalar (hvalid _ hraw) b hmem
      exact ⟨hhigh, hslash, .inr hlow⟩

/-- What is open around a value. -/
def Frame.bracket : Frame → Bracket
  | .array _ => .array
  | .object _ _ => .object

/-- What the value is written between, if anything. -/
def Doc.bracket? : Doc → Option Bracket
  | .array _ => some .array
  | .object _ => some .object
  | _ => none

/-- A value goes into the innermost array or object. -/
theorem complete_cons (doc : Doc) (f : Frame) (stack : List Frame) :
    ∃ f', complete doc (f :: stack) = ⟨f' :: stack, .after⟩ ∧ f'.bracket = f.bracket := by
  cases f with
  | array items => exact ⟨_, rfl, rfl⟩
  | object members key => exact ⟨_, rfl, rfl⟩

theorem complete_length (doc : Doc) (stack : List Frame) :
    (complete doc stack).stack.length = stack.length := by
  cases stack with
  | nil => rfl
  | cons f stack =>
    obtain ⟨f', hcomplete, -⟩ := complete_cons doc f stack
    rw [hcomplete]
    rfl

/-- What is enclosed becomes a value. -/
theorem close_eq_some {b : Bracket} {stack : List Frame} (h : close b stack = some s') :
    ∃ f rest doc, stack = f :: rest ∧ s' = complete doc rest ∧ f.bracket = b ∧
      doc.bracket? = some b := by
  unfold close at h
  split at h
  · exact ⟨_, _, _, rfl, (Option.some.inj h).symm, rfl, rfl⟩
  · exact ⟨_, _, _, rfl, (Option.some.inj h).symm, rfl, rfl⟩
  · cases h

theorem separate_eq_some {stack : List Frame} (h : separate stack = some s') :
    s'.stack = stack ∧ stack ≠ [] := by
  unfold separate at h
  split at h
  · exact ⟨by rw [← Option.some.inj h], List.cons_ne_nil _ _⟩
  · exact ⟨by rw [← Option.some.inj h], List.cons_ne_nil _ _⟩
  · cases h

theorem opened_stack (b : Bracket) (stack : List Frame) :
    ∃ f, (b.opened stack).stack = f :: stack ∧ f.bracket = b := by
  cases b with
  | array => exact ⟨_, rfl, rfl⟩
  | object => exact ⟨_, rfl, rfl⟩

theorem shift_closes {lo depth : ℕ} (h : lo < depth) (hi : ℕ) (b : Bracket) :
    shift lo hi depth (.closes b) = some (depth - 1) := if_pos h

theorem shift_opens {hi depth : ℕ} (h : depth < hi) (lo : ℕ) (b : Bracket) :
    shift lo hi depth (.opens b) = some (depth + 1) := if_pos h

/-- The depth is the height of the stack. -/
theorem Moved.shift (h : Moved limit s t s') :
    JsonText.shift 0 limit s.stack.length t = some s'.stack.length := by
  cases h with
  | leaf hmode hleaf =>
    obtain ⟨raw, ⟨rfl, -⟩ | ⟨rfl, -⟩⟩ := hleaf
    all_goals
      rw [complete_length]
      rfl
  | @opens stack mode b hmode hroom =>
    obtain ⟨f, hstack, -⟩ := opened_stack b stack
    rw [hstack]
    exact shift_opens hroom _ _
  | closes hmode hclose =>
    obtain ⟨f, rest, doc, rfl, rfl, -⟩ := close_eq_some hclose
    rw [complete_length]
    exact shift_closes (Nat.succ_pos _) _ _
  | key hmode hraw => rfl
  | colon => rfl
  | comma hnext =>
    rw [(separate_eq_some hnext).1]
    rfl

theorem run_levels {ts : List Token} (h : run limit s ts = some s') :
    levels 0 limit s.stack.length ts = some s'.stack.length := by
  induction ts generalizing s with
  | nil =>
    obtain rfl := Option.some.inj h
    rfl
  | cons t ts ih =>
    obtain ⟨next, hmoved, hrun⟩ := run_cons_eq_some h
    rw [levels, List.foldlM_cons, hmoved.shift]
    exact ih hrun

/-- A value above a frame leaves the frame open, with the same kind of bracket. -/
theorem complete_append (doc : Doc) (upper : List Frame) (f : Frame) (base : List Frame) :
    ∃ upper' f', complete doc (upper ++ f :: base) = ⟨upper' ++ f' :: base, .after⟩ ∧
      f'.bracket = f.bracket ∧ upper'.length = upper.length := by
  cases upper with
  | nil =>
    obtain ⟨f', hcomplete, hbracket⟩ := complete_cons doc f base
    exact ⟨[], f', hcomplete, hbracket, rfl⟩
  | cons g upper =>
    obtain ⟨g', hcomplete, -⟩ := complete_cons doc g (upper ++ f :: base)
    exact ⟨g' :: upper, f, hcomplete, rfl, rfl⟩

/-- A frame stays open until its own bracket closes it. -/
theorem Moved.within (h : Moved limit s t s') {upper base : List Frame} {f : Frame}
    (hs : s.stack = upper ++ f :: base) :
    (∃ upper' f' mode, s' = ⟨upper' ++ f' :: base, mode⟩ ∧ f'.bracket = f.bracket ∧
      JsonText.shift (base.length + 1) limit s.stack.length t = some s'.stack.length) ∨
    upper = [] ∧ t = .closes f.bracket ∧
      ∃ doc, s' = complete doc base ∧ doc.bracket? = some f.bracket := by
  cases h with
  | leaf hmode hleaf =>
    obtain rfl : _ = _ := hs
    obtain ⟨upper', f', hcomplete, hbracket, hlength⟩ := complete_append _ upper f base
    refine .inl ⟨upper', f', .after, hcomplete, hbracket, ?_⟩
    obtain ⟨raw, ⟨rfl, -⟩ | ⟨rfl, -⟩⟩ := hleaf
    all_goals
      rw [complete_length]
      rfl
  | @opens stack mode b hmode hroom =>
    obtain rfl : _ = _ := hs
    obtain ⟨g, hstack, -⟩ := opened_stack b (upper ++ f :: base)
    refine .inl ⟨g :: upper, f, (b.opened (upper ++ f :: base)).mode, ?_, rfl, ?_⟩
    · rw [List.cons_append, ← hstack]
    · rw [hstack]
      exact shift_opens hroom _ _
  | @closes stack mode b _ hmode hclose =>
    obtain rfl : _ = _ := hs
    obtain ⟨g, rest, doc, hstack, rfl, hbracket, hdoc⟩ := close_eq_some hclose
    cases upper with
    | nil =>
      obtain ⟨rfl, rfl⟩ := List.cons.inj hstack
      rw [hbracket]
      exact .inr ⟨rfl, rfl, doc, rfl, hdoc⟩
    | cons g' upper =>
      obtain ⟨rfl, rfl⟩ := List.cons.inj hstack
      obtain ⟨upper', f', hcomplete, hbracket', hlength⟩ := complete_append doc upper f base
      refine .inl ⟨upper', f', .after, hcomplete, hbracket', ?_⟩
      have hdeep : base.length + 1 < (g' :: (upper ++ f :: base)).length := by
        simp only [List.length_cons, List.length_append]
        omega
      rw [complete_length]
      exact shift_closes hdeep _ _
  | @key members old stack mode raw hmode hraw =>
    have hsplit : Frame.object members old :: stack = upper ++ f :: base := hs
    cases upper with
    | nil =>
      obtain ⟨rfl, rfl⟩ := List.cons.inj hsplit
      exact .inl ⟨[], _, _, rfl, rfl, rfl⟩
    | cons g upper =>
      obtain ⟨rfl, rfl⟩ := List.cons.inj hsplit
      exact .inl ⟨.object members raw :: upper, f, _, rfl, rfl, rfl⟩
  | colon =>
    obtain rfl : _ = _ := hs
    exact .inl ⟨upper, f, _, rfl, rfl, rfl⟩
  | @comma stack _ hnext =>
    obtain rfl : _ = _ := hs
    obtain ⟨hstack, -⟩ := separate_eq_some hnext
    refine .inl ⟨upper, f, s'.mode, by rw [← hstack], rfl, ?_⟩
    rw [hstack]
    rfl

/-- A bracket that was opened is closed: what is between stays deeper. -/
theorem run_closes {ts : List Token} (h : run limit s ts = some s') {upper base : List Frame}
    {f : Frame} (hs : s.stack = upper ++ f :: base) (hlow : s'.stack.length ≤ base.length) :
    ∃ inner rest f' mode doc, ts = inner ++ .closes f.bracket :: rest ∧
      run limit s inner = some ⟨f' :: base, mode⟩ ∧ f'.bracket = f.bracket ∧
      levels (base.length + 1) limit s.stack.length inner = some (base.length + 1) ∧
      Moved limit ⟨f' :: base, mode⟩ (.closes f.bracket) (complete doc base) ∧
      doc.bracket? = some f.bracket ∧ run limit (complete doc base) rest = some s' := by
  induction ts generalizing s upper f with
  | nil =>
    obtain rfl := Option.some.inj h
    rw [hs, List.length_append, List.length_cons] at hlow
    omega
  | cons t ts ih =>
    obtain ⟨next, hmoved, hrun⟩ := run_cons_eq_some h
    rcases hmoved.within hs with ⟨upper', f', mode, rfl, hbracket, hshift⟩ |
        ⟨rfl, rfl, doc, rfl, hdoc⟩
    · obtain ⟨inner, rest, f'', mode', doc, rfl, hinner, hbracket', hlevels, hclose, hdoc, hrest⟩ :=
        ih hrun rfl
      rw [hbracket] at hbracket' hclose hdoc
      refine ⟨t :: inner, rest, f'', mode', doc, by rw [hbracket]; rfl,
        run_of_moved hmoved hinner, hbracket', ?_, hclose, hdoc, hrest⟩
      rw [levels, List.foldlM_cons, hshift]
      exact hlevels
    · obtain ⟨stack, mode⟩ := s
      obtain rfl : stack = f :: base := hs
      exact ⟨[], ts, f, mode, doc, rfl, rfl, rfl, rfl, hmoved, hdoc, hrun⟩

section Alike

variable {older older' : List (List UInt8 × Doc)}

/-- Two readers that differ in the older members of the outermost object only. -/
inductive Alike (older older' : List (List UInt8 × Doc)) : State → State → Prop
  | within (upper new key mode) :
      Alike older older' ⟨upper ++ [.object (new ++ older) key], mode⟩
        ⟨upper ++ [.object (new ++ older') key], mode⟩
  | done (new) :
      Alike older older' ⟨[], .done (.object (older.reverse ++ new))⟩
        ⟨[], .done (.object (older'.reverse ++ new))⟩

theorem alike_complete (doc : Doc) (upper : List Frame) (new : List (List UInt8 × Doc))
    (key : List UInt8) :
    Alike older older' (complete doc (upper ++ [.object (new ++ older) key]))
      (complete doc (upper ++ [.object (new ++ older') key])) := by
  cases upper with
  | nil => exact .within [] ((key, doc) :: new) [] .after
  | cons g upper =>
    cases g with
    | array items => exact .within (.array (doc :: items) :: upper) new key .after
    | object members key' =>
      exact .within (.object ((key', doc) :: members) [] :: upper) new key .after

theorem alike_close {b : Bracket} {upper : List Frame} {new : List (List UInt8 × Doc)}
    {key : List UInt8} (h : close b (upper ++ [.object (new ++ older) key]) = some s) :
    ∃ s', close b (upper ++ [.object (new ++ older') key]) = some s' ∧
      Alike older older' s s' := by
  cases upper with
  | nil =>
    cases b with
    | array => cases h
    | object =>
      obtain rfl := Option.some.inj h
      refine ⟨_, rfl, ?_⟩
      rw [List.reverse_append, List.reverse_append]
      exact .done new.reverse
  | cons g upper =>
    cases g with
    | array items =>
      cases b with
      | array =>
        obtain rfl := Option.some.inj h
        exact ⟨_, rfl, alike_complete _ upper new key⟩
      | object => cases h
    | object members key' =>
      cases b with
      | array => cases h
      | object =>
        obtain rfl := Option.some.inj h
        exact ⟨_, rfl, alike_complete _ upper new key⟩

/-- The difference does not matter for one token. -/
theorem Moved.alike {s₁ s₁' s₂ : State} (h : Moved limit s₁ t s₁')
    (halike : Alike older older' s₁ s₂) :
    ∃ s₂', Moved limit s₂ t s₂' ∧ Alike older older' s₁' s₂' := by
  cases halike with
  | done new => cases step_of_moved h
  | within upper new key mode =>
    generalize hs : State.mk (upper ++ [.object (new ++ older) key]) mode = s₁ at h
    cases h with
    | leaf hmode hleaf =>
      obtain ⟨rfl, rfl⟩ := State.mk.inj hs
      exact ⟨_, .leaf hmode hleaf, alike_complete _ upper new key⟩
    | @opens _ _ b hmode hroom =>
      obtain ⟨rfl, rfl⟩ := State.mk.inj hs
      have hroom' : (upper ++ [Frame.object (new ++ older') key]).length < limit := by
        rw [List.length_append, List.length_singleton] at hroom ⊢
        exact hroom
      refine ⟨_, .opens hmode hroom', ?_⟩
      cases b with
      | array => exact .within (.array [] :: upper) new key .firstItem
      | object => exact .within (.object [] [] :: upper) new key .firstKey
    | closes hmode hclose =>
      obtain ⟨rfl, rfl⟩ := State.mk.inj hs
      obtain ⟨s₂', hclose', halike⟩ := alike_close hclose
      exact ⟨s₂', .closes hmode hclose', halike⟩
    | @key members old stack _ raw hmode hraw =>
      obtain ⟨hstack, rfl⟩ := State.mk.inj hs
      cases upper with
      | nil =>
        obtain ⟨hobject, rfl⟩ := List.cons.inj hstack
        obtain ⟨rfl, -⟩ := Frame.object.inj hobject
        exact ⟨_, .key hmode hraw, .within [] new raw .colon⟩
      | cons g upper =>
        obtain ⟨rfl, rfl⟩ := List.cons.inj hstack
        exact ⟨_, .key hmode hraw, .within (.object members raw :: upper) new key .colon⟩
    | colon =>
      obtain ⟨rfl, rfl⟩ := State.mk.inj hs
      exact ⟨_, .colon, .within upper new key .value⟩
    | comma hnext =>
      obtain ⟨rfl, rfl⟩ := State.mk.inj hs
      cases upper with
      | nil =>
        obtain rfl := Option.some.inj hnext
        exact ⟨_, .comma rfl, .within [] new key .key⟩
      | cons g upper =>
        cases g with
        | array items =>
          obtain rfl := Option.some.inj hnext
          exact ⟨_, .comma rfl, .within (.array items :: upper) new key .value⟩
        | object members key' =>
          obtain rfl := Option.some.inj hnext
          exact ⟨_, .comma rfl, .within (.object members key' :: upper) new key .key⟩

/-- Nor does it for many. -/
theorem run_alike {s₁ s₁' s₂ : State} {ts : List Token} (h : run limit s₁ ts = some s₁')
    (halike : Alike older older' s₁ s₂) :
    ∃ s₂', run limit s₂ ts = some s₂' ∧ Alike older older' s₁' s₂' := by
  induction ts generalizing s₁ s₂ with
  | nil =>
    obtain rfl := Option.some.inj h
    exact ⟨s₂, rfl, halike⟩
  | cons t ts ih =>
    obtain ⟨next, hmoved, hrun⟩ := run_cons_eq_some h
    obtain ⟨next', hmoved', halike'⟩ := hmoved.alike halike
    obtain ⟨s₂', hrun', hend⟩ := ih hrun halike'
    exact ⟨s₂', run_of_moved hmoved' hrun', hend⟩

/-- The outermost object ends with its older members first, whatever these are. -/
theorem run_older {key : List UInt8} {mode : Mode} {ts : List Token} {doc : Doc}
    (h : run limit ⟨[.object older key], mode⟩ ts = some ⟨[], .done doc⟩) :
    ∃ new, doc = .object (older.reverse ++ new) ∧
      ∀ older', run limit ⟨[.object older' key], mode⟩ ts =
        some ⟨[], .done (.object (older'.reverse ++ new))⟩ := by
  have hstart (older') : Alike older older' ⟨[.object older key], mode⟩
      ⟨[.object older' key], mode⟩ := .within [] [] key mode
  have hdone {older' : List (List UInt8 × Doc)} {s : State}
      (h : Alike older older' ⟨[], .done doc⟩ s) : ∃ new, doc = .object (older.reverse ++ new) ∧
        s = ⟨[], .done (.object (older'.reverse ++ new))⟩ := by
    generalize hs : (⟨[], .done doc⟩ : State) = s₁ at h
    cases h with
    | within upper new key mode =>
      have hnil := congrArg State.stack hs
      cases upper <;> cases hnil
    | done new =>
      obtain ⟨-, hmode⟩ := State.mk.inj hs
      exact ⟨new, Mode.done.inj hmode, rfl⟩
  obtain ⟨s, -, halike⟩ := run_alike h (hstart older)
  obtain ⟨new, rfl, -⟩ := hdone halike
  refine ⟨new, rfl, fun older' => ?_⟩
  obtain ⟨s', hrun, halike'⟩ := run_alike h (hstart older')
  obtain ⟨new', hnew, rfl⟩ := hdone halike'
  rw [hrun, List.append_cancel_left (Doc.object.inj hnew)]

end Alike

section Lifted

variable {base : List Frame} {depth : ℕ}

/-- A reader inside of what is open already. -/
inductive Lifted (base : List Frame) : State → State → Prop
  | within (upper mode) (hopen : upper ≠ [] ∨ mode = .value) (hmode : ∀ doc, mode ≠ .done doc) :
      Lifted base ⟨upper, mode⟩ ⟨upper ++ base, mode⟩
  | done (doc) : Lifted base ⟨[], .done doc⟩ (complete doc base)

theorem lifted_complete (doc : Doc) (upper : List Frame) :
    Lifted base (complete doc upper) (complete doc (upper ++ base)) := by
  cases upper with
  | nil => exact .done doc
  | cons g upper =>
    cases g with
    | array items =>
      exact .within (.array (doc :: items) :: upper) .after (.inl (List.cons_ne_nil _ _)) nofun
    | object members key =>
      exact .within (.object ((key, doc) :: members) [] :: upper) .after
        (.inl (List.cons_ne_nil _ _)) nofun

theorem Moved.lifted {s₁ s₁' s₂ : State} (h : Moved depth s₁ t s₁') (hlifted : Lifted base s₁ s₂)
    (hdepth : depth + base.length ≤ limit) :
    ∃ s₂', Moved limit s₂ t s₂' ∧ Lifted base s₁' s₂' := by
  cases hlifted with
  | done doc => cases step_of_moved h
  | within upper mode hopen hmode =>
    cases h with
    | leaf hvalue hleaf => exact ⟨_, .leaf hvalue hleaf, lifted_complete _ upper⟩
    | @opens _ _ b hvalue hroom =>
      have hroom' : (upper ++ base).length < limit := by
        rw [List.length_append]
        omega
      refine ⟨_, .opens hvalue hroom', ?_⟩
      cases b with
      | array => exact .within (.array [] :: upper) .firstItem (.inl (List.cons_ne_nil _ _)) nofun
      | object =>
        exact .within (.object [] [] :: upper) .firstKey (.inl (List.cons_ne_nil _ _)) nofun
    | @closes _ _ b _ hends hclose =>
      cases upper with
      | nil => cases b <;> cases hclose
      | cons g upper =>
        cases g with
        | array items =>
          cases b with
          | array =>
            obtain rfl := Option.some.inj hclose
            exact ⟨_, .closes hends rfl, lifted_complete _ upper⟩
          | object => cases hclose
        | object members key =>
          cases b with
          | array => cases hclose
          | object =>
            obtain rfl := Option.some.inj hclose
            exact ⟨_, .closes hends rfl, lifted_complete _ upper⟩
    | @key members old stack _ raw hkey hraw =>
      exact ⟨_, .key hkey hraw, .within (.object members raw :: stack) .colon
        (.inl (List.cons_ne_nil _ _)) nofun⟩
    | colon => exact ⟨_, .colon, .within upper .value (.inr rfl) nofun⟩
    | comma hnext =>
      cases upper with
      | nil => cases hnext
      | cons g upper =>
        cases g with
        | array items =>
          obtain rfl := Option.some.inj hnext
          exact ⟨_, .comma rfl, .within (.array items :: upper) .value (.inr rfl) nofun⟩
        | object members key =>
          obtain rfl := Option.some.inj hnext
          exact ⟨_, .comma rfl, .within (.object members key :: upper) .key
            (.inl (List.cons_ne_nil _ _)) nofun⟩

theorem run_lifted {s₁ s₁' s₂ : State} {ts : List Token} (h : run depth s₁ ts = some s₁')
    (hlifted : Lifted base s₁ s₂) (hdepth : depth + base.length ≤ limit) :
    ∃ s₂', run limit s₂ ts = some s₂' ∧ Lifted base s₁' s₂' := by
  induction ts generalizing s₁ s₂ with
  | nil =>
    obtain rfl := Option.some.inj h
    exact ⟨s₂, rfl, hlifted⟩
  | cons t ts ih =>
    obtain ⟨next, hmoved, hrun⟩ := run_cons_eq_some h
    obtain ⟨next', hmoved', hlifted'⟩ := hmoved.lifted hlifted hdepth
    obtain ⟨s₂', hrun', hend⟩ := ih hrun hlifted'
    exact ⟨s₂', run_of_moved hmoved' hrun', hend⟩

/-- A document is a value wherever there is room for it. -/
theorem run_value {ts : List Token} {doc : Doc} (h : readTokens depth ts = some doc)
    (hdepth : depth + base.length ≤ limit) :
    run limit ⟨base, .value⟩ ts = some (complete doc base) := by
  obtain ⟨stack, hrun⟩ := readTokens_eq_some_iff.mp h
  obtain ⟨s, hlifted, hend⟩ := run_lifted hrun (.within [] .value (.inr rfl) nofun) hdepth
  cases hend with
  | within upper mode hopen hmode => exact absurd rfl (hmode doc)
  | done => exact hlifted

/-- A first item is a value. -/
theorem run_firstItem {ts : List Token} (hts : ts ≠ []) {stack : List Frame}
    (h : run limit ⟨stack, .value⟩ ts = some s) : run limit ⟨stack, .firstItem⟩ ts = some s := by
  cases ts with
  | nil => exact absurd rfl hts
  | cons t ts =>
    obtain ⟨next, hmoved, hrun⟩ := run_cons_eq_some h
    refine run_of_moved ?_ hrun
    cases hmoved with
    | leaf hmode hleaf => exact .leaf (.inr rfl) hleaf
    | opens hmode hroom => exact .opens (.inr rfl) hroom
    | closes hmode hclose => rcases hmode with h | h | h <;> cases h
    | key hmode hraw => rcases hmode with h | h <;> cases h

end Lifted

section Members

variable {ts before after : List Token} {doc : Doc} {key : List UInt8}

theorem complete_mode (doc : Doc) (stack : List Frame) : (complete doc stack).mode ≠ .colon := by
  cases stack with
  | nil => nofun
  | cons f stack =>
    obtain ⟨f', hcomplete, -⟩ := complete_cons doc f stack
    rw [hcomplete]
    nofun

/-- A string is a key if a colon follows. -/
theorem key_of_colon {next : State} (hstring : Moved limit s (.string key) next)
    (hcolon : Moved limit next .colon s') :
    ∃ members old stack mode, s = ⟨.object members old :: stack, mode⟩ ∧
      s' = ⟨.object members key :: stack, .value⟩ := by
  generalize ht : Token.colon = t at hcolon
  cases hcolon with
  | leaf hmode hleaf =>
    subst ht
    obtain ⟨raw, ⟨h, -⟩ | ⟨h, -⟩⟩ := hleaf <;> cases h
  | opens hmode hroom => cases ht
  | closes hmode hclose => cases ht
  | key hmode hraw => cases ht
  | comma hnext => cases ht
  | @colon stack =>
    generalize hnext : State.mk stack .colon = next at hstring
    cases hstring with
    | leaf hmode hleaf =>
      exact absurd (congrArg State.mode hnext).symm (complete_mode _ _)
    | @key members old rest mode _ hmode hraw =>
      obtain ⟨rfl, -⟩ := State.mk.inj hnext
      exact ⟨members, old, rest, mode, rfl, rfl⟩

/-- Nothing is open when a document is done. -/
theorem stack_of_done {stack : List Frame} (h : run limit .start ts = some ⟨stack, .done doc⟩) :
    stack = [] := by
  have hcomplete {doc' : Doc} {rest : List Frame}
      (h : complete doc' rest = ⟨stack, .done doc⟩) : stack = [] := by
    cases rest with
    | nil => exact (congrArg State.stack h).symm
    | cons f rest =>
      obtain ⟨f', hcons, -⟩ := complete_cons doc' f rest
      cases (congrArg State.mode (hcons.symm.trans h))
  have hmoved {s : State} {t : Token} (h : Moved limit s t ⟨stack, .done doc⟩) : stack = [] := by
    generalize hs : State.mk stack (.done doc) = s' at h
    cases h with
    | leaf hmode hleaf => exact hcomplete hs.symm
    | @opens _ _ b hmode hroom => cases b <;> cases hs
    | closes hmode hclose =>
      subst hs
      obtain ⟨f, rest, doc', -, hdone, -⟩ := close_eq_some hclose
      exact hcomplete hdone.symm
    | key hmode hraw => cases hs
    | colon => cases hs
    | comma hnext =>
      subst hs
      unfold separate at hnext
      split at hnext <;> cases hnext
  obtain rfl | ⟨init, t, rfl⟩ := List.eq_nil_or_concat ts
  · cases Option.some.inj h
  · rw [List.concat_eq_append, run_append] at h
    obtain ⟨s, -, hrun⟩ := Option.bind_eq_some_iff.mp h
    obtain ⟨next, hlast, hnil⟩ := run_cons_eq_some hrun
    obtain rfl := Option.some.inj hnil
    exact hmoved hlast

/-- The reader at the value of a key of the outermost object. -/
theorem reach_value (hread : readTokens limit (before ++ .string key :: .colon :: after) = some doc)
    (hlevel : levels 0 limit 0 before = some 1) :
    ∃ members, run limit .start (before ++ [.string key, .colon]) =
        some ⟨[.object members key], .value⟩ ∧
      run limit ⟨[.object members key], .value⟩ after = some ⟨[], .done doc⟩ := by
  obtain ⟨stack, hrun⟩ := readTokens_eq_some_iff.mp hread
  obtain rfl := stack_of_done hrun
  rw [run_append] at hrun
  obtain ⟨s, hbefore, hrest⟩ := Option.bind_eq_some_iff.mp hrun
  obtain ⟨s₁, hstring, hrest⟩ := run_cons_eq_some hrest
  obtain ⟨s₂, hcolon, hrest⟩ := run_cons_eq_some hrest
  obtain ⟨members, old, stack, mode, rfl, rfl⟩ := key_of_colon hstring hcolon
  have hheight := (run_levels hbefore).symm.trans hlevel
  obtain rfl : stack = [] := by simpa using hheight
  refine ⟨members, ?_, hrest⟩
  rw [run_append, hbefore]
  exact run_of_moved hstring (run_of_moved hcolon rfl)

/-- The reader behind such a value. -/
theorem pass_value {members : List (List UInt8 × Doc)}
    (h : run limit ⟨[.object members key], .value⟩ ts = some ⟨[], .done doc⟩) :
    ∃ v rest, (v.bracket? = some .array ↔ ts.head? = some (.opens .array)) ∧
      run limit ⟨[.object ((key, v) :: members) []], .after⟩ rest = some ⟨[], .done doc⟩ := by
  cases ts with
  | nil => cases Option.some.inj h
  | cons t ts =>
    obtain ⟨next, hmoved, hrun⟩ := run_cons_eq_some h
    generalize hs : State.mk [.object members key] .value = s at hmoved
    cases hmoved with
    | @leaf _ _ _ v hmode hleaf =>
      obtain ⟨rfl, -⟩ := State.mk.inj hs
      refine ⟨v, ts, ?_, hrun⟩
      obtain ⟨raw, ⟨rfl, -, rfl⟩ | ⟨rfl, -, rfl⟩⟩ := hleaf <;> exact iff_of_false nofun nofun
    | @opens _ _ b hmode hroom =>
      obtain ⟨rfl, -⟩ := State.mk.inj hs
      obtain ⟨f, hstack, rfl⟩ := opened_stack b [.object members key]
      obtain ⟨inner, rest, f', mode, v, -, -, -, -, -, hv, hrest⟩ :=
        @run_closes _ _ _ _ hrun [] _ f hstack (Nat.zero_le _)
      refine ⟨v, rest, ?_, hrest⟩
      rw [hv]
      constructor
      · intro h
        rw [List.head?_cons, Option.some.inj h]
      · intro h
        rw [Token.opens.inj (Option.some.inj h)]
    | closes hmode hclose =>
      obtain ⟨-, rfl⟩ := State.mk.inj hs
      rcases hmode with h | h | h <;> cases h
    | key hmode hraw =>
      obtain ⟨-, rfl⟩ := State.mk.inj hs
      rcases hmode with h | h <;> cases h
    | colon => cases hs
    | comma hnext => cases hs

/-- A string and a colon at depth one are a member of the document. -/
theorem read_member (hread : readTokens limit (before ++ .string key :: .colon :: after) = some doc)
    (hlevel : levels 0 limit 0 before = some 1) :
    ∃ front v back, doc = .object (front ++ (key, v) :: back) ∧
      (v.bracket? = some .array ↔ after.head? = some (.opens .array)) := by
  obtain ⟨members, -, hvalue⟩ := reach_value hread hlevel
  obtain ⟨v, rest, hkind, hrest⟩ := pass_value hvalue
  obtain ⟨back, rfl, -⟩ := run_older hrest
  refine ⟨members.reverse, v, back, ?_, hkind⟩
  rw [List.reverse_cons, List.append_assoc]
  rfl

theorem Moved.mode_of_closes {b : Bracket} (h : Moved limit s (.closes b) s') :
    s.mode = .firstItem ∨ s.mode = .firstKey ∨ s.mode = .after := by
  cases h with
  | leaf hmode hleaf => obtain ⟨raw, ⟨h, -⟩ | ⟨h, -⟩⟩ := hleaf <;> cases h
  | closes hmode hclose => exact hmode

/-- A value can end where something ended before, or where nothing was read yet. -/
theorem Moved.after_or_opens {stack : List Frame} {mode : Mode} (h : Moved limit s t ⟨stack, mode⟩)
    (hmode : mode = .firstItem ∨ mode = .firstKey ∨ mode = .after) :
    mode = .after ∨ ∃ b, t = .opens b := by
  have hcomplete {doc : Doc} {rest : List Frame} (h : complete doc rest = ⟨stack, mode⟩) :
      mode = .after := by
    cases rest with
    | nil =>
      obtain ⟨-, rfl⟩ := State.mk.inj h
      rcases hmode with h | h | h <;> cases h
    | cons f rest =>
      obtain ⟨f', hcons, -⟩ := complete_cons doc f rest
      exact (congrArg State.mode (hcons.symm.trans h)).symm
  generalize hs : State.mk stack mode = s' at h
  cases h with
  | leaf _ hleaf => exact .inl (hcomplete hs.symm)
  | @opens _ _ b _ _ => exact .inr ⟨b, rfl⟩
  | closes _ hclose =>
    subst hs
    obtain ⟨f, rest, doc, -, hdone, -⟩ := close_eq_some hclose
    exact .inl (hcomplete hdone.symm)
  | key _ hraw =>
    obtain ⟨-, rfl⟩ := State.mk.inj hs
    rcases hmode with h | h | h <;> cases h
  | colon =>
    obtain ⟨-, rfl⟩ := State.mk.inj hs
    rcases hmode with h | h | h <;> cases h
  | comma hnext =>
    subst hs
    unfold separate at hnext
    split at hnext
    · cases Option.some.inj hnext
      rcases hmode with h | h | h <;> cases h
    · cases Option.some.inj hnext
      rcases hmode with h | h | h <;> cases h
    · cases hnext

/-- The depth stays above its lower bound. -/
theorem le_levels {lo hi depth d : ℕ} {ts : List Token} (hlo : lo ≤ depth)
    (h : levels lo hi depth ts = some d) : lo ≤ d := by
  induction ts generalizing depth with
  | nil =>
    obtain rfl := Option.some.inj h
    exact hlo
  | cons t ts ih =>
    rw [levels, List.foldlM_cons] at h
    obtain ⟨e, he, hrest⟩ := Option.bind_eq_some_iff.mp h
    refine ih ?_ hrest
    cases t with
    | opens b =>
      obtain ⟨-, hsome⟩ := Option.ite_none_right_eq_some.mp he
      have hsame := Option.some.inj hsome
      omega
    | closes b =>
      obtain ⟨hlow, hsome⟩ := Option.ite_none_right_eq_some.mp he
      have hsame := Option.some.inj hsome
      omega
    | comma | colon | string raw | scalar raw =>
      obtain rfl := Option.some.inj he
      exact hlo

/-- What is between an array's brackets can be followed by another item. -/
theorem run_another_item {base : List Frame} {body : List Token} {items : List Doc} {mode : Mode}
    (hlevels : levels (base.length + 1) limit (base.length + 1) body = some (base.length + 1))
    (hbody : run limit ⟨.array [] :: base, .firstItem⟩ body = some ⟨.array items :: base, mode⟩)
    (hclose : mode = .firstItem ∨ mode = .firstKey ∨ mode = .after) {depth : ℕ} {ts : List Token}
    {doc : Doc} (hts : readTokens depth ts = some doc)
    (hdepth : depth + (base.length + 1) ≤ limit) :
    run limit ⟨.array [] :: base, .firstItem⟩ (if body = [] then ts else body ++ .comma :: ts) =
      some ⟨.array (doc :: items) :: base, .after⟩ := by
  have hvalue (items : List Doc) : run limit ⟨.array items :: base, .value⟩ ts =
      some ⟨.array (doc :: items) :: base, .after⟩ := run_value hts hdepth
  split_ifs with hnil
  · subst hnil
    obtain ⟨hstack, -⟩ := State.mk.inj (Option.some.inj hbody)
    obtain ⟨rfl⟩ := Frame.array.inj (List.cons.inj hstack).1
    refine run_firstItem ?_ (hvalue [])
    rintro rfl
    cases hts
  · obtain rfl : mode = .after := by
      obtain ⟨init, t, rfl⟩ := (List.eq_nil_or_concat body).resolve_left hnil
      rw [List.concat_eq_append] at hbody hlevels
      rw [run_append] at hbody
      obtain ⟨s, hinit, hlast⟩ := Option.bind_eq_some_iff.mp hbody
      obtain ⟨next, hmoved, hend⟩ := run_cons_eq_some hlast
      obtain rfl := Option.some.inj hend
      refine (hmoved.after_or_opens hclose).resolve_right ?_
      rintro ⟨b, rfl⟩
      -- An opening bracket would have been deeper than what it opened.
      rw [levels, List.foldlM_append] at hlevels
      obtain ⟨d, hd, hshift⟩ := Option.bind_eq_some_iff.mp hlevels
      have hlow := le_levels (Nat.le_refl _) hd
      obtain ⟨e, he, hsome⟩ := Option.bind_eq_some_iff.mp hshift
      obtain rfl := Option.some.inj hsome
      obtain ⟨-, hdeeper⟩ := Option.ite_none_right_eq_some.mp he
      have hsame := Option.some.inj hdeeper
      omega
    rw [run_append, hbody]
    exact hvalue items

/-- An item at the end of the array of a member of the document. -/
theorem read_insert
    (hread : readTokens limit (before ++ .string key :: .colon :: .opens .array :: after) =
      some doc)
    (hlevel : levels 0 limit 0 before = some 1) :
    ∃ front items back body rest, doc = .object (front ++ (key, .array items) :: back) ∧
      after = body ++ .closes .array :: rest ∧ levels 2 limit 2 body = some 2 ∧
      ∀ {depth ts item}, readTokens depth ts = some item → depth + 2 ≤ limit →
        readTokens limit (before ++ .string key :: .colon :: .opens .array ::
            ((if body = [] then ts else body ++ .comma :: ts) ++ .closes .array :: rest)) =
          some (.object (front ++ (key, .array (items ++ [item])) :: back)) := by
  obtain ⟨members, hreach, hvalue⟩ := reach_value hread hlevel
  obtain ⟨next, hopens, hrun⟩ := run_cons_eq_some hvalue
  have hroom : 1 < limit := by
    generalize hs : State.mk [.object members key] .value = s at hopens
    cases hopens with
    | leaf hmode hleaf => obtain ⟨raw, ⟨h, -⟩ | ⟨h, -⟩⟩ := hleaf <;> cases h
    | opens hmode hroom =>
      obtain ⟨rfl, -⟩ := State.mk.inj hs
      exact hroom
  obtain rfl : next = ⟨[.array [], .object members key], .firstItem⟩ := by
    have hstep : step limit ⟨[.object members key], .value⟩ (.opens .array) =
        some ⟨[.array [], .object members key], .firstItem⟩ := if_pos hroom
    exact Option.some.inj ((step_of_moved hopens).symm.trans hstep)
  obtain ⟨body, rest, f, mode, v, rfl, hbody, hbracket, hlevels, hclose, -, hrest⟩ :=
    @run_closes _ _ _ _ hrun [] _ _ rfl (Nat.zero_le _)
  obtain ⟨reversed, rfl⟩ : ∃ reversed, f = .array reversed := by
    cases f with
    | array reversed => exact ⟨reversed, rfl⟩
    | object members key => cases hbracket
  have hclosed (items : List Doc) {mode : Mode}
      (hmode : mode = .firstItem ∨ mode = .firstKey ∨ mode = .after) :
      Moved limit ⟨.array items :: [.object members key], mode⟩ (.closes .array)
        ⟨[.object ((key, .array items.reverse) :: members) []], .after⟩ := .closes hmode rfl
  have hmode := hclose.mode_of_closes
  have hend := Option.some.inj
    ((step_of_moved hclose).symm.trans (step_of_moved (hclosed reversed hmode)))
  rw [hend] at hrest
  obtain ⟨back, rfl, hback⟩ := run_older hrest
  refine ⟨members.reverse, reversed.reverse, back, body, rest, ?_, rfl, hlevels, ?_⟩
  · rw [List.reverse_cons, List.append_assoc]
    rfl
  · intro depth ts item hts hdepth
    have hitems := run_another_item hlevels hbody hmode hts hdepth
    have hnew := hback ((key, .array (item :: reversed).reverse) :: members)
    have hput := hclosed (item :: reversed) (.inr (.inr rfl))
    rw [List.reverse_cons] at hput
    rw [List.reverse_cons, List.reverse_cons, List.append_assoc, List.singleton_append] at hnew
    have hall : run limit .start (before ++ .string key :: .colon :: .opens .array ::
        ((if body = [] then ts else body ++ .comma :: ts) ++ .closes .array :: rest)) =
        some ⟨[], .done (.object (members.reverse ++
          (key, .array (reversed.reverse ++ [item])) :: back))⟩ := by
      rw [List.append_cons, List.append_cons, List.append_assoc before, run_append]
      rw [show [Token.string key] ++ [.colon] = [.string key, .colon] from rfl, hreach]
      refine run_of_moved hopens ?_
      rw [run_append, hitems]
      exact run_of_moved hput hnew
    exact readTokens_eq_some_iff.mpr ⟨[], hall⟩

/-- A key of the outermost object whose value is being read. -/
def Pending (upper : List Frame) (mode : Mode) : Prop :=
  upper ≠ [] ∨ mode ≠ .firstKey ∧ mode ≠ .key ∧ mode ≠ .after

theorem pending_of_mode {mode : Mode}
    (h : mode = .value ∨ mode = .firstItem ∨ mode = .colon) (upper : List Frame) :
    Pending upper mode := by
  rcases h with rfl | rfl | rfl <;> exact .inr ⟨nofun, nofun, nofun⟩

/-- A member with this key is still to come: a string and a colon at depth one. -/
def MemberAt (limit depth : ℕ) (key : List UInt8) (ts : List Token) : Prop :=
  ∃ before after, ts = before ++ .string key :: .colon :: after ∧
    levels 0 limit depth before = some 1

theorem MemberAt.cons {depth next : ℕ} {t : Token} (hshift : shift 0 limit depth t = some next)
    (h : MemberAt limit next key ts) : MemberAt limit depth key (t :: ts) := by
  obtain ⟨before, after, rfl, hlevels⟩ := h
  refine ⟨t :: before, after, rfl, ?_⟩
  rw [levels, List.foldlM_cons, hshift]
  exact hlevels

section Origin

variable {upper : List Frame} {older members : List (List UInt8 × Doc)} {current : List UInt8}
  {mode : Mode} {t : Token} {v : Doc}

/-- Where a member of the outermost object comes from: it is there already, its value is being
read, or it is still to come. -/
def Origin (limit : ℕ) (member : List UInt8 × Doc) (older : List (List UInt8 × Doc))
    (current : List UInt8) (upper : List Frame) (mode : Mode) (ts : List Token) : Prop :=
  member ∈ older ∨ member.1 = current ∧ Pending upper mode ∨
    MemberAt limit (upper.length + 1) member.1 ts

/-- A token after which the outermost object has the same members and the same key. -/
theorem Origin.stays {upper' : List Frame} {mode' : Mode}
    (h : Origin limit (key, v) older current upper' mode' ts)
    (hshift : shift 0 limit (upper.length + 1) t = some (upper'.length + 1))
    (hpending : Pending upper' mode' → Pending upper mode) :
    Origin limit (key, v) older current upper mode (t :: ts) := by
  rcases h with hmem | ⟨hkey, hstill⟩ | hlater
  · exact .inl hmem
  · exact .inr (.inl ⟨hkey, hpending hstill⟩)
  · exact .inr (.inr (hlater.cons hshift))

/-- A token with which a value ends that belongs to the outermost object. -/
theorem Origin.ends {doc : Doc} {current' : List UInt8}
    (h : Origin limit (key, v) ((current, doc) :: older) current' [] .after ts)
    (hshift : shift 0 limit (upper.length + 1) t = some 1) (hpending : Pending upper mode) :
    Origin limit (key, v) older current upper mode (t :: ts) := by
  rcases h with hmem | ⟨-, h | ⟨-, -, h⟩⟩ | hlater
  · rcases List.mem_cons.mp hmem with hnew | hold
    · exact .inr (.inl ⟨(Prod.mk.inj hnew).1, hpending⟩)
    · exact .inl hold
  · exact absurd rfl h
  · exact absurd rfl h
  · exact .inr (.inr (hlater.cons hshift))

/-- A key of the outermost object, which a colon has to follow. -/
theorem Origin.named {raw : List UInt8} {final : State}
    (h : Origin limit (key, v) older raw [] .colon ts)
    (hrun : run limit ⟨[.object older raw], .colon⟩ ts = some final) (hfinal : final.stack = [])
    (hshift : shift 0 limit 1 (.string raw) = some 1) :
    Origin limit (key, v) older current [] mode (.string raw :: ts) := by
  rcases h with hmem | ⟨rfl, -⟩ | hlater
  · exact .inl hmem
  · cases ts with
    | nil =>
      obtain rfl := Option.some.inj hrun
      cases hfinal
    | cons t' ts =>
      obtain ⟨next, hcolon, -⟩ := run_cons_eq_some hrun
      obtain ⟨rfl, -⟩ := Option.ite_none_right_eq_some.mp (step_of_moved hcolon)
      exact .inr (.inr ⟨[], ts, rfl, rfl⟩)
  · exact .inr (.inr (hlater.cons hshift))

/-- Where a member of the outermost object comes from. -/
theorem origin_of_member
    (h : run limit ⟨upper ++ [.object older current], mode⟩ ts =
      some ⟨[], .done (.object members)⟩) (hmem : (key, v) ∈ members) :
    Origin limit (key, v) older current upper mode ts := by
  induction ts generalizing upper older current mode with
  | nil =>
    have hstack := congrArg State.stack (Option.some.inj h)
    cases upper <;> cases hstack
  | cons t ts ih =>
    obtain ⟨next, hmoved, hrun⟩ := run_cons_eq_some h
    have hshift := hmoved.shift
    rw [List.length_append, List.length_singleton] at hshift
    have hstays {upper' : List Frame} {mode' : Mode}
        (hnext : next = ⟨upper' ++ [.object older current], mode'⟩)
        (hpending : Pending upper' mode' → Pending upper mode) :
        Origin limit (key, v) older current upper mode (t :: ts) := by
      rw [hnext] at hrun
      refine (ih hrun).stays ?_ hpending
      rw [hshift, hnext, List.length_append]
      rfl
    -- A value ends: it belongs to the outermost object if nothing else is open.
    have hcomplete {doc : Doc} {rest : List Frame}
        (hnext : next = complete doc (rest ++ [.object older current]))
        (hpending : Pending upper mode) :
        Origin limit (key, v) older current upper mode (t :: ts) := by
      cases rest with
      | nil =>
        rw [hnext] at hrun
        refine (@ih [] _ _ _ hrun).ends ?_ hpending
        rw [hshift, hnext]
        rfl
      | cons g rest =>
        obtain ⟨g', hcons, -⟩ := complete_cons doc g (rest ++ [.object older current])
        rw [List.cons_append, hcons] at hnext
        exact @hstays (g' :: rest) _ hnext fun _ => hpending
    generalize hs : State.mk (upper ++ [.object older current]) mode = s at hmoved
    cases hmoved with
    | leaf hmode hleaf =>
      obtain ⟨rfl, rfl⟩ := State.mk.inj hs
      exact hcomplete rfl (pending_of_mode (hmode.imp_right .inl) _)
    | @opens _ _ b hmode hroom =>
      obtain ⟨rfl, rfl⟩ := State.mk.inj hs
      obtain ⟨f, hstack, -⟩ := opened_stack b (upper ++ [.object older current])
      have hopened : b.opened (upper ++ [.object older current]) =
          ⟨(f :: upper) ++ [.object older current],
            (b.opened (upper ++ [.object older current])).mode⟩ := by
        rw [List.cons_append, ← hstack]
      exact hstays hopened fun _ => pending_of_mode (hmode.imp_right .inl) _
    | @closes _ _ b _ hmode hclose =>
      obtain ⟨rfl, rfl⟩ := State.mk.inj hs
      cases upper with
      | nil =>
        cases b with
        | array => cases hclose
        | object =>
          obtain rfl := Option.some.inj hclose
          obtain ⟨-, hdone⟩ := run_done hrun
          obtain ⟨-, hmode'⟩ := State.mk.inj hdone
          obtain rfl := Doc.object.inj (Mode.done.inj hmode')
          exact .inl (List.mem_reverse.mp hmem)
      | cons g upper =>
        obtain ⟨f, rest, doc, hstack, rfl, -⟩ := close_eq_some hclose
        obtain ⟨rfl, rfl⟩ := List.cons.inj hstack
        exact hcomplete rfl (.inl (List.cons_ne_nil _ _))
    | @key fields old stack _ raw hmode hraw =>
      obtain ⟨hstack, rfl⟩ := State.mk.inj hs
      cases upper with
      | nil =>
        obtain ⟨hobject, rfl⟩ := List.cons.inj hstack
        obtain ⟨rfl, rfl⟩ := Frame.object.inj hobject
        exact (@ih [] _ _ _ hrun).named hrun rfl hshift
      | cons g upper =>
        obtain ⟨rfl, rfl⟩ := List.cons.inj hstack
        have hopen : Pending (.object fields old :: upper) mode := .inl (List.cons_ne_nil _ _)
        exact @hstays (.object fields raw :: upper) _ rfl fun _ => hopen
    | colon =>
      obtain ⟨rfl, rfl⟩ := State.mk.inj hs
      exact hstays rfl fun _ => pending_of_mode (.inr (.inr rfl)) _
    | comma hnext =>
      obtain ⟨rfl, rfl⟩ := State.mk.inj hs
      obtain ⟨hstack, -⟩ := separate_eq_some hnext
      obtain ⟨stack, mode⟩ := next
      obtain rfl : stack = _ := hstack
      refine hstays rfl fun hpending => .inl ?_
      rintro rfl
      obtain ⟨-, rfl⟩ := State.mk.inj (Option.some.inj hnext)
      rcases hpending with h | ⟨-, h, -⟩ <;> exact absurd rfl h

end Origin

/-- A member of the document is a string and a colon at depth one. -/
theorem memberAt_of_mem {members : List (List UInt8 × Doc)} {v : Doc}
    (hread : readTokens limit ts = some (.object members)) (hmem : (key, v) ∈ members) :
    MemberAt limit 0 key ts := by
  obtain ⟨stack, hrun⟩ := readTokens_eq_some_iff.mp hread
  obtain rfl := stack_of_done hrun
  cases ts with
  | nil => cases Option.some.inj hrun
  | cons t ts =>
    obtain ⟨next, hmoved, hrest⟩ := run_cons_eq_some hrun
    have hshift := hmoved.shift
    generalize hs : State.start = s at hmoved
    cases hmoved with
    | leaf hmode hleaf =>
      obtain ⟨rfl, -⟩ := State.mk.inj hs
      obtain ⟨-, hdone⟩ := run_done hrest
      obtain ⟨raw, ⟨-, -, rfl⟩ | ⟨-, -, rfl⟩⟩ := hleaf <;> cases hdone
    | @opens _ _ b hmode hroom =>
      obtain ⟨rfl, -⟩ := State.mk.inj hs
      cases b with
      | array =>
        obtain ⟨inner, rest, f, mode, doc, -, -, -, -, -, hdoc, hend⟩ :=
          @run_closes _ _ _ _ hrest [] [] _ rfl (Nat.zero_le _)
        obtain ⟨-, hdone⟩ := run_done hend
        obtain ⟨-, hmode'⟩ := State.mk.inj hdone
        rw [← Mode.done.inj hmode'] at hdoc
        cases hdoc
      | object =>
        rcases @origin_of_member _ _ _ [] _ _ _ _ _ hrest hmem with hmem | ⟨-, hpending⟩ | hlater
        · cases hmem
        · rcases hpending with h | ⟨h, -⟩ <;> exact absurd rfl h
        · exact hlater.cons (shift_opens hroom 0 .object)
    | closes hmode hclose =>
      obtain ⟨-, rfl⟩ := State.mk.inj hs
      rcases hmode with h | h | h <;> cases h
    | key hmode hraw => cases hs
    | colon => cases hs
    | comma hnext => cases hs

end Members

end JsonText
