import G2mirror.ServerConfig
import G2mirror.SizePolicy

/-!
# The precedence list

The server turns the positions of its `size_precedence` list into two ranks, which the
wrapper compares. Of all viewing clients and the host, the one that the list puts first
gets its size, unless the list is too long for its positions to be numbers of 32 bits.
-/

namespace G2mirror

/-- Where a name stands in the order that a precedence list states. -/
inductive Place
  | listed (i : ℕ)
  | unlistedToken
  | unlistedHost
  deriving DecidableEq

namespace Place

/-- Listed names come in their order, then tokens that are not listed, then the host. -/
def Before : Place → Place → Prop
  | .listed i, .listed j => i < j
  | .listed _, _ => True
  | .unlistedToken, .unlistedHost => True
  | _, _ => False

/-- The place of a name: the first position that lists it. -/
def of (precedence : List String) (name : String) : Place :=
  match precedence.findIdx? (· == name) with
  | some i => .listed i
  | none => if name = "host" then .unlistedHost else .unlistedToken

/-- A place as a number, next to a list of this length. -/
def rank (length : ℕ) : Place → ℕ
  | .listed i => i
  | .unlistedToken => length
  | .unlistedHost => length + 1

variable {precedence : List String} {name name' : String}

theorem of_eq_listed {i : ℕ} : of precedence name = .listed i ↔
    precedence.findIdx? (· == name) = some i := by
  unfold of
  cases precedence.findIdx? (· == name) with
  | some j =>
    dsimp only
    rw [listed.injEq, Option.some.injEq]
  | none =>
    dsimp only
    split_ifs <;> exact iff_of_false (by rintro ⟨⟩) (by rintro ⟨⟩)

theorem lt_of_listed {i : ℕ} (h : of precedence name = .listed i) : i < precedence.length :=
  (List.findIdx?_eq_some_iff_getElem.mp (of_eq_listed.mp h)).1

/-- No two names are listed at one position. -/
theorem eq_of_listed {i : ℕ} (h : of precedence name = .listed i)
    (h' : of precedence name' = .listed i) : name = name' := by
  obtain ⟨_, hname, -⟩ := List.findIdx?_eq_some_iff_getElem.mp (of_eq_listed.mp h)
  obtain ⟨_, hname', -⟩ := List.findIdx?_eq_some_iff_getElem.mp (of_eq_listed.mp h')
  exact (eq_of_beq hname).symm.trans (eq_of_beq hname')

/-- The host has a place of its own. -/
theorem of_ne_host (hname : name ≠ "host") : of precedence name ≠ of precedence "host" := by
  intro heq
  cases h : of precedence name with
  | listed i => exact hname (eq_of_listed h (heq ▸ h))
  | unlistedToken =>
    rw [h] at heq
    unfold of at heq
    split at heq
    · cases heq
    · cases heq
  | unlistedHost =>
    unfold of at h
    split at h
    · cases h
    · rw [if_neg hname] at h
      cases h

/-- Places are compared as their numbers. -/
theorem before_iff : (of precedence name).Before (of precedence name') ↔
    (of precedence name).rank precedence.length < (of precedence name').rank precedence.length := by
  cases h : of precedence name with
  | listed i =>
    have hi := lt_of_listed h
    cases of precedence name' with
    | listed j => rfl
    | unlistedToken => exact iff_of_true trivial hi
    | unlistedHost => exact iff_of_true trivial (hi.trans (Nat.lt_succ_self _))
  | unlistedToken =>
    cases h' : of precedence name' with
    | listed j => exact iff_of_false id (lt_of_listed h').not_gt
    | unlistedToken => exact iff_of_false id (lt_irrefl _)
    | unlistedHost => exact iff_of_true trivial (Nat.lt_succ_self _)
  | unlistedHost =>
    cases h' : of precedence name' with
    | listed j => exact iff_of_false id ((lt_of_listed h').trans (Nat.lt_succ_self _)).not_gt
    | unlistedToken => exact iff_of_false id (Nat.lt_succ_self _).not_gt
    | unlistedHost => exact iff_of_false id (lt_irrefl _)

/-- Different places have different numbers. -/
theorem rank_injective
    (hrank : (of precedence name).rank precedence.length =
      (of precedence name').rank precedence.length) : of precedence name = of precedence name' := by
  have hbefore := hrank.not_lt
  have hafter := hrank.not_gt
  rw [← before_iff] at hbefore hafter
  revert hbefore hafter
  cases of precedence name with
  | listed i =>
    cases of precedence name' with
    | listed j =>
      intro hbefore hafter
      rw [Nat.le_antisymm (Nat.le_of_not_lt hafter) (Nat.le_of_not_lt hbefore)]
    | unlistedToken | unlistedHost => exact fun hbefore => absurd trivial hbefore
  | unlistedToken =>
    cases of precedence name' with
    | listed j => exact fun _ hafter => absurd trivial hafter
    | unlistedToken => exact fun _ _ => rfl
    | unlistedHost => exact fun hbefore => absurd trivial hbefore
  | unlistedHost =>
    cases of precedence name' with
    | listed j | unlistedToken => exact fun _ hafter => absurd trivial hafter
    | unlistedHost => exact fun _ _ => rfl

end Place

/-- The ranks are the places, as numbers, while these are numbers of 32 bits. -/
theorem sizeRanks_eq {config : ServerConfig} (hlength : config.sizePrecedence.length < 2 ^ 32 - 1)
    {name : String} (hname : name ≠ "host") :
    config.sizeRanks name =
      ((Place.of config.sizePrecedence name).rank config.sizePrecedence.length,
        (Place.of config.sizePrecedence "host").rank config.sizePrecedence.length) := by
  have hposition (name : String) (other : ℕ) :
      ((config.sizePrecedence.findIdx? (· == name)).map (· % 2 ^ 32)).getD other =
        (config.sizePrecedence.findIdx? (· == name)).getD other := by
    cases h : config.sizePrecedence.findIdx? (· == name) with
    | none => rfl
    | some i =>
      have hi := (List.findIdx?_eq_some_iff_getElem.mp h).1
      exact Nat.mod_eq_of_lt (by omega)
  unfold ServerConfig.sizeRanks Place.of
  dsimp only
  rw [hposition name, hposition "host", Nat.mod_eq_of_lt (by omega), Nat.mod_eq_of_lt (by omega)]
  congr 1
  · split
    · rename_i i hi
      rw [hi]
      rfl
    · rename_i hi
      rw [hi, if_neg hname]
      rfl
  · split
    · rename_i i hi
      rw [hi]
      rfl
    · rename_i hi
      rw [hi]
      rfl

/-- Those that compete for the size of the app. -/
inductive Party
  | host
  | viewer (c : Client)

section Parties

variable {vt : Vt100} (precedence : List String) (token : Client → String)

namespace Party

/-- Which parties there are: the host, and the clients that are viewing. -/
def Present (s : Stage vt) : Party → Prop
  | .host => True
  | .viewer c => c ∈ s.viewers ∧ c.isViewing = true

/-- The size that a party asks for. -/
def size (s : Stage vt) : Party → ℕ × ℕ
  | .host => s.mirror.hostSize
  | .viewer c => (c.height, c.width)

/-- The place of a party in the order that the list states. -/
def place : Party → Place
  | .host => .of precedence "host"
  | .viewer c => .of precedence (token c)

/-- Two viewers at one place come in the order of their arrival. -/
def Precedes : Party → Party → Prop
  | .viewer c, .viewer d =>
    (place precedence token (.viewer c)).Before (place precedence token (.viewer d)) ∨
      place precedence token (.viewer c) = place precedence token (.viewer d) ∧ c.id ≤ d.id
  | p, q => (place precedence token p).Before (place precedence token q)

/-- The party comes before all others. -/
structure Earliest (s : Stage vt) (p : Party) : Prop where
  present : p.Present s
  first : ∀ q, q.Present s → q ≠ p → p.Precedes precedence token q

end Party

end Parties

namespace Stage

variable {vt : Vt100} {env : Env} {hostRank : ℕ} {initial host : ℕ × ℕ} {s : Stage vt}

/-- After the view is decided, the app has the size that was aimed at. -/
theorem refreshView_size (h : s.Agrees false initial host) {size : ℕ × ℕ}
    (htarget : s.target hostRank false = some size) (forceFor : Option ℕ) :
    (s.refreshView env false hostRank forceFor).2.mirror.size = size := by
  have hagrees : (s.refreshView env false hostRank forceFor).2.Agrees false initial host :=
    h.refreshView rfl
  have hview : (s.refreshView env false hostRank forceFor).2.mirror.view.map
      (fun v => (v.rows, v.cols)) = some size := by
    rcases s.refreshView_cases env false hostRank forceFor with
      ⟨-, hnone, -⟩ | ⟨-, hnone, -⟩ |
        ⟨rows, cols, hsome, ⟨hcase, hneeds, -⟩ | ⟨error, t, ht, ⟨-, hcase⟩ | ⟨-, msg, -, hcase⟩⟩⟩
    · cases hnone.symm.trans htarget
    · cases hnone.symm.trans htarget
    · cases hsome.symm.trans htarget
      obtain ⟨v, hv, -, hdims⟩ := view_of_unneeded hneeds
      rw [hcase, hv]
      exact congrArg some hdims
    · cases hsome.symm.trans htarget
      rw [hcase, (startView_frame ht).2.2.2.1]
      rfl
    · cases hsome.symm.trans htarget
      rw [hcase]
      exact congrArg _ (startView_frame ht).2.2.2.1
  rw [hagrees.view, hview]
  rfl

/-- The ranks of the clients are those that the server gives their tokens, and the wrapper has
the host's rank from it too. -/
structure Ranked (config : ServerConfig) (token : Client → String) (hostRank : ℕ)
    (s : Stage vt) : Prop where
  host : ∃ name, name ≠ "host" ∧ hostRank = (config.sizeRanks name).2
  viewer : ∀ c ∈ s.viewers, c.isViewing = true → c.role = .viewer ∧ token c ≠ "host" ∧
    c.sizeRank = (config.sizeRanks (token c)).1

/-- The target is the size of the party that the list puts first. -/
theorem target_of_ranked {config : ServerConfig} {token : Client → String}
    (hlength : config.sizePrecedence.length < 2 ^ 32 - 1) (hranked : s.Ranked config token hostRank)
    (hviewing : ∃ c ∈ s.viewers, c.isViewing = true) :
    ∃ p : Party, p.Earliest config.sizePrecedence token s ∧
      s.target hostRank false = some (p.size s) := by
  set precedence := config.sizePrecedence with hprecedence
  let rank (name : String) := (Place.of precedence name).rank precedence.length
  have hhost : hostRank = rank "host" := by
    obtain ⟨name, hname, hrank⟩ := hranked.host
    rw [hrank, sizeRanks_eq hlength hname]
  have hviewer {c : Client} (hc : c ∈ s.viewers) (hcviewing : c.isViewing = true) :
      c.effectiveRank hostRank = rank (token c) ∧ rank (token c) ≠ rank "host" := by
    obtain ⟨hrole, htoken, hrank⟩ := hranked.viewer c hc hcviewing
    rw [sizeRanks_eq hlength htoken] at hrank
    refine ⟨?_, fun heq => Place.of_ne_host htoken (Place.rank_injective heq)⟩
    rw [Client.effectiveRank, hrole]
    exact hrank
  obtain ⟨c, hbest⟩ : ∃ c, s.best hostRank = some c := by
    obtain ⟨d, hd, hdviewing⟩ := hviewing
    cases hbest : s.best hostRank with
    | none =>
      rw [best, List.argmin_eq_none, List.filter_eq_nil_iff] at hbest
      exact absurd hdviewing (hbest d hd)
    | some c => exact ⟨c, rfl⟩
  obtain ⟨hc, hcviewing⟩ := List.mem_filter.mp (List.argmin_mem hbest)
  obtain ⟨hcrank, hcne⟩ := hviewer hc hcviewing
  have hleast {d : Client} (hd : d ∈ s.viewers) (hdviewing : d.isViewing = true) :
      rank (token c) < rank (token d) ∨ rank (token c) = rank (token d) ∧ c.id ≤ d.id := by
    have hkeys := List.le_of_mem_argmin (List.mem_filter.mpr ⟨hd, hdviewing⟩) hbest
    rw [Prod.Lex.toLex_le_toLex, hcrank, (hviewer hd hdviewing).1] at hkeys
    exact hkeys
  have htarget : s.target hostRank false =
      some (if rank (token c) ≤ rank "host" then (c.height, c.width) else s.mirror.hostSize) := by
    rw [target, hbest, Option.map_some, hcrank, hhost]
    simp
  rw [htarget]
  by_cases hwins : rank (token c) ≤ rank "host"
  · refine ⟨.viewer c, ⟨⟨hc, hcviewing⟩, fun q hq hne => ?_⟩, by rw [if_pos hwins]; rfl⟩
    cases q with
    | host => exact Place.before_iff.mpr (lt_of_le_of_ne hwins hcne)
    | viewer d =>
      rcases hleast hq.1 hq.2 with hlt | ⟨heq, hid⟩
      · exact .inl (Place.before_iff.mpr hlt)
      · exact .inr ⟨Place.rank_injective heq, hid⟩
  · refine ⟨.host, ⟨trivial, fun q hq hne => ?_⟩, by rw [if_neg hwins]; rfl⟩
    cases q with
    | host => exact absurd rfl hne
    | viewer d =>
      have hlt : rank (token c) ≤ rank (token d) := by
        rcases hleast hq.1 hq.2 with hlt | ⟨heq, -⟩
        · exact hlt.le
        · exact heq.le
      exact Place.before_iff.mpr ((Nat.lt_of_not_le hwins).trans_le hlt)

/-- The precedence list is honoured: when a hosted session re-decides its view while somebody
is viewing, the app gets the size of the party that the list puts first. -/
theorem refreshView_honours_precedence {config : ServerConfig} {token : Client → String}
    (hlength : config.sizePrecedence.length < 2 ^ 32 - 1) (h : s.Agrees false initial host)
    (hranked : s.Ranked config token hostRank) (hviewing : ∃ c ∈ s.viewers, c.isViewing = true)
    (forceFor : Option ℕ) :
    let s' := (s.refreshView env false hostRank forceFor).2
    ∃ p : Party, p.Earliest config.sizePrecedence token s ∧
      s'.mirror.size = p.size s ∧ (s'.log.PtyResized → s'.pty = p.size s) := by
  intro s'
  obtain ⟨p, hearliest, htarget⟩ := target_of_ranked hlength hranked hviewing
  have hsize : s'.mirror.size = p.size s := refreshView_size h htarget forceFor
  have hagrees : s'.Agrees false initial host := h.refreshView rfl
  exact ⟨p, hearliest, hsize, fun hpty => (hagrees.pty hpty).trans hsize⟩

/-- The two devices of a session, with their rank. -/
def devices (rank rank' : ℕ) : List Client :=
  [⟨.viewing, "a", 4, 2, rank, .viewer, 0, false⟩, ⟨.viewing, "b", 6, 3, rank', .viewer, 1, false⟩]

/-- A configuration that has a precedence list only. -/
def preferring (precedence : List String) : ServerConfig := ⟨[], precedence, [], none, none⟩

/-- The second device is listed, and has the say. -/
theorem precedence_sample :
    ∃ (s : Stage asciiVt100) (p : Party), s.viewers = devices 1 0 ∧
      p.Earliest ["b"] Client.device s ∧
      (s.refreshView (.failingAt []) false 2 none).2.mirror.size = p.size s := by
  obtain ⟨w, hsession, hviewers⟩ :
      ∃ w ∈ Wrapper.session asciiVt100 (.failingAt []) (Wrapper.smallConfig false)
        (Wrapper.twoViewers 1 0), w.viewers = devices 1 0 := by
    decide +kernel
  have hranked : w.toStage.Ranked (preferring ["b"]) Client.device 2 := by
    refine ⟨⟨"a", by decide, by decide⟩, fun c hc _ => ?_⟩
    rw [hviewers] at hc
    rcases List.mem_pair.mp hc with rfl | rfl
    · exact ⟨rfl, by decide, by decide⟩
    · exact ⟨rfl, by decide, by decide⟩
  have hviewing : ∃ c ∈ w.toStage.viewers, c.isViewing = true := by
    rw [hviewers]
    exact ⟨_, List.mem_cons_self, rfl⟩
  obtain ⟨p, hearliest, hsize, -⟩ := @refreshView_honours_precedence _ (.failingAt []) _ _ _ _
    (preferring ["b"]) _ (by decide) (Wrapper.session_agrees hsession).1 hranked hviewing none
  exact ⟨w.toStage, p, hviewers, hearliest, hsize⟩

/-- Behind `2 ^ 32` others a token gets the rank of the first one. -/
theorem sizeRanks_wrap {n : ℕ} (hn : n = 2 ^ 32) :
    (preferring (List.replicate n "x" ++ ["y"])).sizeRanks "x" = (0, 2) ∧
      (preferring (List.replicate n "x" ++ ["y"])).sizeRanks "y" = (0, 2) := by
  have hpos : 0 < n := by omega
  have hfirst : (List.replicate n "x" ++ ["y"]).findIdx? (· == "x") = some 0 := by
    simp [List.findIdx?_append, List.findIdx?_replicate, hpos]
  have hlast : (List.replicate n "x" ++ ["y"]).findIdx? (· == "y") = some n := by
    simp [List.findIdx?_append, List.findIdx?_replicate]
  have hhost : (List.replicate n "x" ++ ["y"]).findIdx? (· == "host") = none := by
    simp [List.findIdx?_append, List.findIdx?_replicate]
  have hlength : (List.replicate n "x" ++ ["y"]).length = n + 1 := by simp
  unfold ServerConfig.sizeRanks preferring
  dsimp only
  rw [hfirst, hlast, hhost, hlength, hn]
  exact ⟨rfl, rfl⟩

/-- The first device is listed behind `2 ^ 32` others, the second at the front, and the app gets
the first one's size. -/
theorem long_precedence_not_honoured :
    ¬ ∀ (config : ServerConfig) (token : Client → String) (s : Stage asciiVt100) (env : Env)
        (hostRank : ℕ) (initial host : ℕ × ℕ) (forceFor : Option ℕ),
      s.Agrees false initial host → s.Ranked config token hostRank →
        (∃ c ∈ s.viewers, c.isViewing = true) →
          ∃ p : Party, p.Earliest config.sizePrecedence token s ∧
            (s.refreshView env false hostRank forceFor).2.mirror.size = p.size s := by
  intro hhonoured
  obtain ⟨w, hsession, hviewers, hhost, hresult⟩ :
      ∃ w ∈ Wrapper.session asciiVt100 (.failingAt []) (Wrapper.smallConfig false)
          (Wrapper.twoViewers 0 0),
        w.viewers = devices 0 0 ∧ w.mirror.hostSize = (5, 5) ∧
          (w.toStage.refreshView (.failingAt []) false 2 none).2.mirror.size = (2, 4) := by
    decide +kernel
  obtain ⟨n, hn⟩ : ∃ n : ℕ, n = 2 ^ 32 := ⟨_, rfl⟩
  obtain ⟨precedence, hprecedence⟩ : ∃ precedence, precedence = List.replicate n "x" ++ ["y"] :=
    ⟨_, rfl⟩
  let token (c : Client) : String := if c.device = "a" then "y" else "x"
  have hpos : 0 < n := by omega
  have hx : Place.of precedence "x" = .listed 0 :=
    Place.of_eq_listed.mpr
      (by simp [hprecedence, List.findIdx?_append, List.findIdx?_replicate, hpos])
  have hy : Place.of precedence "y" = .listed n :=
    Place.of_eq_listed.mpr (by simp [hprecedence, List.findIdx?_append, List.findIdx?_replicate])
  have hranks := sizeRanks_wrap hn
  rw [← hprecedence] at hranks
  have hranked : w.toStage.Ranked (preferring precedence) token 2 := by
    refine ⟨⟨"x", by decide, by rw [hranks.1]⟩, fun c hc _ => ?_⟩
    rw [hviewers] at hc
    rcases List.mem_pair.mp hc with rfl | rfl
    · exact ⟨rfl, by decide, (congrArg Prod.fst hranks.2).symm⟩
    · exact ⟨rfl, by decide, (congrArg Prod.fst hranks.1).symm⟩
  have hviewing : ∃ c ∈ w.toStage.viewers, c.isViewing = true := by
    rw [hviewers]
    exact ⟨_, List.mem_cons_self, rfl⟩
  obtain ⟨p, hearliest, hsize⟩ := hhonoured _ token w.toStage (.failingAt []) 2 _ _ none
    (Wrapper.session_agrees hsession).1 hranked hviewing
  rw [hresult] at hsize
  cases p with
  | host => cases hsize.trans hhost
  | viewer c =>
    have hc := hearliest.present.1
    rw [hviewers] at hc
    rcases List.mem_pair.mp hc with rfl | rfl
    · have hother :
          (Party.viewer ⟨.viewing, "b", 6, 3, 0, .viewer, 1, false⟩).Present w.toStage := by
        refine ⟨?_, rfl⟩
        rw [hviewers]
        exact List.mem_cons_of_mem _ List.mem_cons_self
      have hprecedes : (Place.of precedence "y").Before (.of precedence "x") ∨
          Place.of precedence "y" = .of precedence "x" ∧ 0 ≤ 1 :=
        hearliest.first _ hother (by simp)
      rw [hx, hy] at hprecedes
      rcases hprecedes with hbefore | ⟨hplace, -⟩
      · exact Nat.not_lt_zero _ hbefore
      · rw [Place.listed.injEq] at hplace
        omega
    · cases hsize

end Stage

end G2mirror
