/-
  When the search of `recursiveMatch` is correct.

  The proofs see the goroutines' stacks only as the multiset of all their frames:
  whether a child got a slot of its own or runs on its parent's stack makes no
  difference to what the search visits.  `resume_cases` says once what a goroutine
  can do to that multiset.

  The invariant has three parts.  Every frame reads tuples of a reachable object
  (`FrameOk`).  Every explored object is waiting for its resolver, or each of its
  passing tuples leads to a claimed object or is still to be read (`Covered`).
  While the launch loop runs there is room in the response channel for every match
  (`room`).
-/

import OpenFGA.Check.Recursive

namespace OpenFGA.Check.Match
open List

variable {q : MatchInput} {s s' : Match} {starts : List Object} {f : Frame} {id : Object}
  {others : Multiset Frame}

/-- All frames of all goroutines. -/
def frames (s : Match) : Multiset Frame := Stacks.frames s.goroutines

/-! ## What a goroutine can do -/

/-- One step of the frame `f`; the frames `others` are not involved. -/
inductive Moved (q : MatchInput) (s : Match) (f : Frame) (others : Multiset Frame) (s' : Match) :
    Prop where
  | finish (hmode : f.mode = .reading) (hrest : f.rest = []) (hframes : s'.frames = others)
      (hids : s'.visited = s.visited ∧ s'.explored = s.explored) (hout : s'.out = s.out)
  | fail (e : Err) (hmode : f.mode = .reading) (hrest : f.rest = []) (herr : f.lastErr = some e)
      (hframes : s'.frames = { f with mode := .sending ⟨none, some e⟩ } ::ₘ others)
      (hids : s'.visited = s.visited ∧ s'.explored = s.explored) (hout : s'.out = s.out)
      (honce : f.onceValid = false)
  | skip (t : TupleKey) (rest : List TupleKey) (hmode : f.mode = .reading)
      (hrest : f.rest = t :: rest) (hseen : q.key t ∈ s.visited)
      (hframes : s'.frames = { f with rest } ::ₘ others)
      (hids : s'.visited = s.visited ∧ s'.explored = s.explored) (hout : s'.out = s.out)
  | mark (t : TupleKey) (rest : List TupleKey) (hmode : f.mode = .reading)
      (hrest : f.rest = t :: rest) (hfresh : q.key t ∉ s.visited)
      (hframes : s'.frames = q.afterFilter f t rest ::ₘ others)
      (hvisited : s'.visited = q.key t :: s.visited)
      (hexplored : s'.explored = if q.accepts t then q.key t :: s.explored else s.explored)
      (hout : s'.out = s.out)
  | found (id : Object) (hmode : f.mode = .yielded id) (hid : id ∈ q.idsFromUser)
      (hframes : s'.frames = { f with mode := .sending allowedMsg } ::ₘ others)
      (hids : s'.visited = s.visited ∧ s'.explored = s.explored) (hout : s'.out = s.out)
  | descend (id : Object) (hmode : f.mode = .yielded id) (hid : id ∉ q.idsFromUser)
      (hframes : s'.frames = q.frame id ::ₘ { f with mode := .reading } ::ₘ others)
      (hids : s'.visited = s.visited ∧ s'.explored = s.explored) (hout : s'.out = s.out)
  | send (msg : ResponseMsg) (hmode : f.mode = .sending msg) (hframes : s'.frames = others)
      (hids : s'.visited = s.visited ∧ s'.explored = s.explored)
      (hsend : s.out.send msg = some s'.out)

/-- Everything a goroutine can do. -/
theorem resume_cases {k} (h : s.resume q k = some s') :
    (s'.toLaunch = s.toLaunch ∧ s'.waiting = s.waiting ∧ s'.err = s.err ∧ s'.ret = s.ret) ∧
    ∃ f fs others, s.goroutines[k]? = some (f :: fs) ∧ s.frames = f ::ₘ others ∧
      Moved q s f others s' := by
  unfold resume at h
  split at h
  next f fs hk =>
    obtain ⟨others, hall, hset⟩ := Stacks.exists_others hk
    have hf : s.frames = f ::ₘ ((fs : Multiset Frame) + others) := by
      rw [frames, hall, ← Multiset.cons_coe, Multiset.cons_add]
    have hset' : ∀ f' : Frame, Stacks.frames (s.goroutines.set k (f' :: fs)) =
        f' ::ₘ ((fs : Multiset Frame) + others) := by
      intro f'
      rw [hset, ← Multiset.cons_coe, Multiset.cons_add]
    obtain ⟨rest, onceValid, lastErr, mode⟩ := f
    cases mode with
    | reading =>
      cases rest with
      | nil =>
        simp only at h
        split at h <;> cases h
        next e =>
          exact ⟨⟨rfl, rfl, rfl, rfl⟩, _, fs, _, hk, hf,
            .fail e rfl rfl rfl (hset' _) ⟨rfl, rfl⟩ rfl rfl⟩
        · exact ⟨⟨rfl, rfl, rfl, rfl⟩, _, fs, _, hk, hf, .finish rfl rfl (hset fs) ⟨rfl, rfl⟩ rfl⟩
      | cons t ts =>
        simp only at h
        split at h <;> cases h
        next hseen =>
          exact ⟨⟨rfl, rfl, rfl, rfl⟩, _, fs, _, hk, hf,
            .skip t ts rfl rfl hseen (hset' _) ⟨rfl, rfl⟩ rfl⟩
        next hfresh =>
          exact ⟨⟨rfl, rfl, rfl, rfl⟩, _, fs, _, hk, hf,
            .mark t ts rfl rfl hfresh (hset' _) rfl rfl rfl⟩
    | yielded id =>
      simp only at h
      split at h
      next hid =>
        cases h
        exact ⟨⟨rfl, rfl, rfl, rfl⟩, _, fs, _, hk, hf, .found id rfl hid (hset' _) ⟨rfl, rfl⟩ rfl⟩
      next hid =>
        split at h <;> cases h
        · refine ⟨⟨rfl, rfl, rfl, rfl⟩, _, fs, _, hk, hf, .descend id rfl hid ?_ ⟨rfl, rfl⟩ rfl⟩
          simp only [frames, Stacks.frames_append, Stacks.frames_singleton, hset']
          rw [add_comm, Multiset.coe_singleton, Multiset.singleton_add]
        · refine ⟨⟨rfl, rfl, rfl, rfl⟩, _, fs, _, hk, hf, .descend id rfl hid ?_ ⟨rfl, rfl⟩ rfl⟩
          simp only [frames, setStack, hset, ← Multiset.cons_coe, Multiset.cons_add]
    | sending msg =>
      simp only [Option.map_eq_some_iff] at h
      obtain ⟨out, hsend, rfl⟩ := h
      exact ⟨⟨rfl, rfl, rfl, rfl⟩, _, fs, _, hk, hf, .send msg rfl (hset fs) ⟨rfl, rfl⟩ hsend⟩
  · cases h

/-! ## Specification -/

/-- Some tuple of `a` whose condition is true leads to `b`. -/
def Follows (q : MatchInput) (a b : Object) : Prop :=
  ∃ t ∈ q.tuplesForID a, q.passes t = .ok true ∧ q.key t = b

/-- A path of such tuples leads from one of `starts` to `v`. -/
def Reached (q : MatchInput) (starts : List Object) (v : Object) : Prop :=
  ∃ o ∈ starts, Relation.ReflTransGen (Follows q) o v

/-- A path leads to an object at which the user holds the relation. -/
def Answer (q : MatchInput) (starts : List Object) : Prop :=
  ∃ u ∈ q.idsFromUser, Reached q starts u

lemma top_resume {k fs} (h : s.goroutines[k]? = some (f :: fs)) : s.top (.resume k) = some f := by
  simp [top, h]

lemma sendingCount_eq : s.sendingCount = s.frames.countP fun f => f.isSending = true := by
  simp [sendingCount, frames, Stacks.frames]

/-! ## The invariant -/

/-- A frame reads tuples of a reached object, met no error, and holds a reached id
    or the message of a match. -/
structure FrameOk (q : MatchInput) (starts : List Object) (f : Frame) : Prop where
  reads : ∃ id, Reached q starts id ∧ ∀ t ∈ f.rest, t ∈ q.tuplesForID id
  noErr : f.lastErr = none
  yielded : ∀ id, f.mode = .yielded id → Reached q starts id
  sending : ∀ msg, f.mode = .sending msg → msg = allowedMsg ∧ Answer q starts

/-- A match is on its way to the consumer. -/
def Signal (s : Match) : Prop := s.out.buf ≠ [] ∨ ∃ f ∈ s.frames, f.isSending = true

/-- The search below `v` is still to come, under way, or done. -/
def Covered (q : MatchInput) (s : Match) (v : Object) : Prop :=
  s.waiting = some v ∨ (∃ f ∈ s.frames, f.mode = .yielded v) ∨
    v ∉ q.idsFromUser ∧ ∀ t ∈ q.tuplesForID v, q.passes t = .ok true →
      s.Claimed (q.key t) ∨ ∃ f ∈ s.frames, t ∈ f.rest

structure Inv (q : MatchInput) (starts : List Object) (s : Match) : Prop where
  toLaunch_sub : ∀ o ∈ s.toLaunch, o ∈ starts
  waiting_sub : ∀ o, s.waiting = some o → o ∈ starts
  starts_claimed : ∀ o ∈ starts, s.Claimed o
  frames_ok : ∀ f ∈ s.frames, FrameOk q starts f
  msgs : ∀ m ∈ s.out.buf, m = allowedMsg ∧ Answer q starts
  err_none : s.err = none
  closed : s.out.closed = true → s.frames = 0 ∧ ¬ s.launching
  cap_eq : s.out.cap = q.concurrencyLimit
  room : s.launching → s.out.buf.length + s.sendingCount ≤ s.out.cap
  covered : s.ret = none → ¬ s.Signal → ∀ v ∈ s.explored, Covered q s v
  returned : ∀ r, s.ret = some r → r.2 = none ∧ (r.1.allowed = true ↔ Answer q starts)

/-- Coverage carries over to a state that still holds or has done what `s` held. -/
lemma Covered.transfer {v} (h : Covered q s v) (hwaiting : s.waiting = some v → Covered q s' v)
    (hyielded : ∀ f ∈ s.frames, f.mode = .yielded v → Covered q s' v)
    (hclaimed : ∀ x, s.Claimed x → s'.Claimed x)
    (hrest : ∀ f ∈ s.frames, ∀ t ∈ f.rest, q.passes t = .ok true →
      s'.Claimed (q.key t) ∨ ∃ f' ∈ s'.frames, t ∈ f'.rest) : Covered q s' v := by
  rcases h with h | ⟨f, hf, hm⟩ | ⟨hu, hall⟩
  · exact hwaiting h
  · exact hyielded f hf hm
  · refine .inr (.inr ⟨hu, fun t ht hp => ?_⟩)
    rcases hall t ht hp with hv | ⟨f, hf, htf⟩
    · exact .inl (hclaimed _ hv)
    · exact hrest f hf t htf hp

/-- The first frame of a resolver for a reached object. -/
lemma frame_ok (h : Reached q starts id) : FrameOk q starts (q.frame id) where
  reads := ⟨id, h, fun _ ht => ht⟩
  noErr := rfl
  yielded := by simp [MatchInput.frame]
  sending := by simp [MatchInput.frame]

lemma covered_of_frame {v} (hu : v ∉ q.idsFromUser) (hf : q.frame v ∈ s.frames) :
    Covered q s v :=
  .inr (.inr ⟨hu, fun _ ht _ => .inr ⟨q.frame v, hf, ht⟩⟩)

lemma Claimed.mono (h : s.Claimed id) (htoLaunch : s'.toLaunch = s.toLaunch)
    (hexplored : ∀ v ∈ s.explored, v ∈ s'.explored) : s'.Claimed id := by
  rw [Claimed, htoLaunch]
  exact h.imp_right (hexplored id)

/-- The id that the launch loop takes up is claimed as before. -/
lemma Claimed.stored {o ids waiting visited} (h : s.Claimed o)
    (htoLaunch : s.toLaunch = id :: ids) :
    Claimed { s with toLaunch := ids, waiting, visited, explored := id :: s.explored } o := by
  rcases h with ho | ho
  · rw [htoLaunch] at ho
    rcases mem_cons.mp ho with rfl | ho
    · exact .inr mem_cons_self
    · exact .inl ho
  · exact .inr (mem_cons_of_mem _ ho)

/-- What is left to show when a goroutine has moved. -/
lemma Inv.resumed (h : Inv q starts s)
    (hsame : s'.toLaunch = s.toLaunch ∧ s'.waiting = s.waiting ∧ s'.err = s.err ∧ s'.ret = s.ret)
    (hret : s.ret = none) (hexplored : ∀ v ∈ s.explored, v ∈ s'.explored)
    (hframes : ∀ f ∈ s'.frames, FrameOk q starts f)
    (hmsgs : ∀ m ∈ s'.out.buf, m = allowedMsg ∧ Answer q starts)
    (hclosed : s'.out.closed = false) (hcap : s'.out.cap = q.concurrencyLimit)
    (hroom : s.launching → s'.out.buf.length + s'.sendingCount ≤ s'.out.cap)
    (hcovered : ¬ s'.Signal → ∀ v ∈ s'.explored, Covered q s' v) : Inv q starts s' := by
  obtain ⟨h1, h2, h3, h4⟩ := hsame
  refine ⟨h1 ▸ h.toLaunch_sub, h2 ▸ h.waiting_sub, ?_, hframes, hmsgs, h3 ▸ h.err_none, ?_, hcap,
    ?_, fun _ => hcovered, ?_⟩
  · exact fun o ho => (h.starts_claimed o ho).mono h1 hexplored
  · simp [hclosed]
  · rwa [launching, h1, h2]
  · simp [h4, hret]

/-- A frame that sends nothing is replaced by the frames `new`, which take over the
    tuples it had not read. -/
lemma Inv.replaced (h : Inv q starts s) (new : Multiset Frame)
    (hsame : s'.toLaunch = s.toLaunch ∧ s'.waiting = s.waiting ∧ s'.err = s.err ∧ s'.ret = s.ret)
    (hret : s.ret = none) (hf : s.frames = f ::ₘ others) (hfs : f.isSending = false)
    (hframes : s'.frames = new + others) (hout : s'.out = s.out)
    (hexplored : ∀ v ∈ s.explored, v ∈ s'.explored) (hnew : ∀ x ∈ new, FrameOk q starts x)
    (hroom : s.launching →
      s.out.buf.length + (new.countP (·.isSending) + s.sendingCount) ≤ s.out.cap)
    (hrest : ∀ t ∈ f.rest, q.passes t = .ok true →
      s'.Claimed (q.key t) ∨ ∃ f' ∈ new, t ∈ f'.rest)
    (hcovered : ¬ s'.Signal → ∀ v ∈ s'.explored,
      v ∈ s.explored ∧ f.mode ≠ .yielded v ∨ Covered q s' v) : Inv q starts s' := by
  have hold : ∀ x ∈ others, x ∈ s.frames := fun x hx => hf ▸ Multiset.mem_cons_of_mem hx
  have hkept : ∀ x ∈ others, x ∈ s'.frames :=
    fun x hx => hframes ▸ Multiset.mem_add.mpr (.inr hx)
  have hcases : ∀ x ∈ s.frames, x = f ∨ x ∈ others := by
    intro x hx
    rw [hf] at hx
    exact Multiset.mem_cons.mp hx
  have hopen : s.out.closed = false := by
    by_contra hc
    have hfmem : f ∈ s.frames := hf ▸ Multiset.mem_cons_self f others
    rw [(h.closed (by simpa using hc)).1] at hfmem
    exact Multiset.notMem_zero f hfmem
  refine h.resumed hsame hret hexplored ?_ (hout ▸ h.msgs) (hout ▸ hopen) (hout ▸ h.cap_eq) ?_ ?_
  · intro x hx
    rw [hframes] at hx
    rcases Multiset.mem_add.mp hx with hx | hx
    · exact hnew x hx
    · exact h.frames_ok x (hold x hx)
  · intro hl
    have := hroom hl
    rw [sendingCount_eq, hf, Multiset.countP_cons] at this
    rw [hout, sendingCount_eq, hframes, Multiset.countP_add]
    omega
  · intro hn v hv
    rcases hcovered hn v hv with ⟨hv, hmode⟩ | hc
    · have hsignal : ¬ s.Signal := by
        rintro (hbuf | ⟨x, hx, hxs⟩)
        · exact hn (.inl (hout ▸ hbuf))
        · rcases hcases x hx with rfl | hx
          · rw [hfs] at hxs
            cases hxs
          · exact hn (.inr ⟨x, hkept x hx, hxs⟩)
      refine (h.covered hret hsignal v hv).transfer (fun hw => .inl (hsame.2.1.trans hw)) ?_
        (fun x hx => hx.mono hsame.1 hexplored) ?_
      · intro x hx hxm
        rcases hcases x hx with rfl | hx
        · exact absurd hxm hmode
        · exact .inr (.inl ⟨x, hkept x hx, hxm⟩)
      · intro x hx t ht hp
        rcases hcases x hx with rfl | hx
        · refine (hrest t ht hp).imp_right fun ⟨f', hf', htf'⟩ => ⟨f', ?_, htf'⟩
          exact hframes ▸ Multiset.mem_add.mpr (.inl hf')
        · exact .inr ⟨x, hkept x hx, ht⟩
    · exact hc

/-- The message of a match goes into the channel. -/
theorem Inv.sent {msg} (h : Inv q starts s)
    (hsame : s'.toLaunch = s.toLaunch ∧ s'.waiting = s.waiting ∧ s'.err = s.err ∧ s'.ret = s.ret)
    (hret : s.ret = none) (hf : s.frames = f ::ₘ others) (hmode : f.mode = .sending msg)
    (hframes : s'.frames = others) (hexplored : s'.explored = s.explored)
    (hsend : s.out.send msg = some s'.out) : Inv q starts s' := by
  obtain ⟨hopen, hout⟩ := Chan.send_eq_some hsend
  have hfok := h.frames_ok f (hf ▸ Multiset.mem_cons_self f others)
  have hbuf : s'.out.buf = s.out.buf ++ [msg] := by rw [hout]
  refine h.resumed hsame hret (by simp [hexplored]) ?_ ?_ ?_ ?_ ?_ ?_
  · exact fun x hx => h.frames_ok x (hf ▸ Multiset.mem_cons_of_mem (hframes ▸ hx))
  · intro m hm
    rw [hbuf] at hm
    rcases mem_append.mp hm with hm | hm
    · exact h.msgs m hm
    · rw [mem_singleton.mp hm]
      exact hfok.sending msg hmode
  · rw [hout]
    exact hopen
  · rw [hout]
    exact h.cap_eq
  · intro hl
    have := h.room hl
    rw [sendingCount_eq, hf, Multiset.countP_cons,
      if_pos (by simp [Frame.isSending, hmode])] at this
    rw [hbuf, sendingCount_eq, hframes, length_append, length_singleton]
    rw [hout]
    simp only
    omega
  · intro hn
    exact absurd (.inl (by simp [hbuf])) hn

/-- A goroutine's step keeps the invariant, unless it drops a passing tuple for an id
    that nobody claims or overfills the channel. -/
lemma Inv.moved (h : Inv q starts s)
    (hnoErr : ∀ id, ∀ t ∈ q.tuplesForID id, ∃ b, q.passes t = .ok b)
    (hsame : s'.toLaunch = s.toLaunch ∧ s'.waiting = s.waiting ∧ s'.err = s.err ∧ s'.ret = s.ret)
    (hret : s.ret = none) (hf : s.frames = f ::ₘ others)
    (hskip : ∀ t rest, f.mode = .reading → f.rest = t :: rest → q.key t ∈ s.visited →
      q.passes t = .ok true → s.Claimed (q.key t))
    (hroom : ∀ id, f.mode = .yielded id → id ∈ q.idsFromUser → s.launching →
      s.out.buf.length + s.sendingCount < s.out.cap)
    (hm : Moved q s f others s') : Inv q starts s' := by
  have hfok := h.frames_ok f (hf ▸ Multiset.mem_cons_self f others)
  obtain ⟨src, hsrc, hreads⟩ := hfok.reads
  cases hm with
  | finish hmode hrest hframes hids hout =>
    refine h.replaced 0 hsame hret hf (by simp [Frame.isSending, hmode])
      (by simpa using hframes) hout (by simp [hids]) (by simp) ?_ (by simp [hrest]) ?_
    · simpa using h.room
    · exact fun _ v hv => .inl ⟨hids.2 ▸ hv, by simp [hmode]⟩
  | fail e hmode hrest herr hframes hids hout =>
    rw [hfok.noErr] at herr
    cases herr
  | skip t rest hmode hrest hseen hframes hids hout =>
    refine h.replaced {{ f with rest }} hsame hret hf (by simp [Frame.isSending, hmode])
      hframes hout (by simp [hids]) ?_ ?_ ?_ ?_
    · intro x hx
      rw [Multiset.mem_singleton.mp hx]
      exact ⟨⟨src, hsrc, fun x hx => hreads x (hrest ▸ mem_cons_of_mem t hx)⟩, hfok.noErr,
        hfok.yielded, hfok.sending⟩
    · simpa [hmode, ← Multiset.cons_zero] using h.room
    · intro x hx hp
      rw [hrest] at hx
      rcases mem_cons.mp hx with rfl | hx
      · -- the dropped tuple passes, so its id is claimed by somebody else
        exact .inl ((hskip _ rest hmode hrest hseen hp).mono hsame.1 (by simp [hids]))
      · exact .inr ⟨_, Multiset.mem_singleton_self _, hx⟩
    · exact fun _ v hv => .inl ⟨hids.2 ▸ hv, by simp [hmode]⟩
  | mark t rest hmode hrest hfresh hframes hvisited hexplored hout =>
    have htsrc : t ∈ q.tuplesForID src := hreads t (hrest ▸ mem_cons_self)
    have hreads' : ∀ x ∈ rest, x ∈ q.tuplesForID src :=
      fun x hx => hreads x (hrest ▸ mem_cons_of_mem t hx)
    obtain ⟨b, hb⟩ := hnoErr src t htsrc
    rw [MatchInput.afterFilter, hb] at hframes
    cases b with
    | false =>
      -- the rejected tuple leads nowhere, and the ids the search goes on from stay
      have hsame_explored : s'.explored = s.explored := by
        simpa [MatchInput.accepts, hb] using hexplored
      refine h.replaced {_} hsame hret hf (by simp [Frame.isSending, hmode]) hframes hout
        (by simp [hsame_explored]) ?_ ?_ ?_ ?_
      · intro x hx
        rw [Multiset.mem_singleton.mp hx]
        exact ⟨⟨src, hsrc, hreads'⟩, hfok.noErr, hfok.yielded, hfok.sending⟩
      · simpa [hmode, ← Multiset.cons_zero] using h.room
      · intro x hx hp
        rw [hrest] at hx
        rcases mem_cons.mp hx with rfl | hx
        · rw [hb] at hp
          cases hp
        · exact .inr ⟨_, Multiset.mem_singleton_self _, hx⟩
      · exact fun _ v hv => .inl ⟨hsame_explored ▸ hv, by simp [hmode]⟩
    | true =>
      -- the frame holds the id until its resolver starts, which covers it
      have hreach : Reached q starts (q.key t) := by
        obtain ⟨o, ho, hpath⟩ := hsrc
        exact ⟨o, ho, hpath.tail ⟨t, htsrc, hb, rfl⟩⟩
      have hadded : s'.explored = q.key t :: s.explored := by
        simpa [MatchInput.accepts, hb] using hexplored
      refine h.replaced {_} hsame hret hf (by simp [Frame.isSending, hmode]) hframes hout
        (by simp +contextual [hadded]) ?_ ?_ ?_ ?_
      · intro x hx
        rw [Multiset.mem_singleton.mp hx]
        refine ⟨⟨src, hsrc, hreads'⟩, hfok.noErr, ?_, by simp⟩
        intro id hid
        cases hid
        exact hreach
      · simpa [← Multiset.cons_zero] using h.room
      · intro x hx _
        rw [hrest] at hx
        rcases mem_cons.mp hx with rfl | hx
        · exact .inl (.inr (by simp [hadded]))
        · exact .inr ⟨_, Multiset.mem_singleton_self _, hx⟩
      · intro _ v hv
        rw [hadded] at hv
        rcases mem_cons.mp hv with rfl | hv
        · exact .inr (.inr (.inl ⟨_, hframes ▸ Multiset.mem_cons_self _ _, rfl⟩))
        · exact .inl ⟨hv, by simp [hmode]⟩
  | found id hmode hid hframes hids hout =>
    refine h.replaced {{ f with mode := .sending allowedMsg }} hsame hret hf
      (by simp [Frame.isSending, hmode]) hframes hout (by simp [hids]) ?_ ?_ ?_ ?_
    · intro x hx
      rw [Multiset.mem_singleton.mp hx]
      refine ⟨hfok.reads, hfok.noErr, by simp, ?_⟩
      intro msg hmsg
      cases hmsg
      exact ⟨rfl, id, hid, hfok.yielded id hmode⟩
    · intro hl
      have := hroom id hmode hid hl
      have hone : Multiset.countP (fun x : Frame => x.isSending = true)
          {{ f with mode := .sending allowedMsg }} = 1 := by
        simp [← Multiset.cons_zero, Multiset.countP_cons]
      rw [hone]
      omega
    · exact fun x hx _ => .inr ⟨_, Multiset.mem_singleton_self _, hx⟩
    · -- the match is a signal
      intro hn
      refine absurd (.inr ⟨_, hframes ▸ Multiset.mem_cons_self _ _, ?_⟩) hn
      simp [Frame.isSending]
  | descend id hmode hid hframes hids hout =>
    refine h.replaced {q.frame id, { f with mode := .reading }} hsame hret hf
      (by simp [Frame.isSending, hmode]) (by simpa using hframes) hout (by simp [hids])
      ?_ ?_ ?_ ?_
    · intro x hx
      simp only [Multiset.insert_eq_cons, Multiset.mem_cons, Multiset.mem_singleton] at hx
      rcases hx with rfl | rfl
      · exact frame_ok (hfok.yielded id hmode)
      · exact ⟨hfok.reads, hfok.noErr, by simp, by simp⟩
    · simpa [MatchInput.frame, ← Multiset.cons_zero] using h.room
    · exact fun x hx _ => .inr ⟨{ f with mode := .reading }, by simp, hx⟩
    · intro _ v hv
      by_cases hvid : v = id
      · subst hvid
        exact .inr (covered_of_frame hid (hframes ▸ Multiset.mem_cons_self _ _))
      · refine .inl ⟨hids.2 ▸ hv, ?_⟩
        rw [hmode]
        exact fun heq => hvid (Mode.yielded.inj heq).symm
  | send msg hmode hframes hids hsend =>
    exact h.sent hsame hret hf hmode hframes hids.2 hsend

theorem Inv.start : Inv q starts (Match.start q starts) where
  toLaunch_sub := fun _ h => h
  waiting_sub := by simp [Match.start]
  starts_claimed := fun _ h => .inl h
  frames_ok := by simp [Match.start, frames]
  msgs := by simp [Match.start]
  err_none := rfl
  closed := by simp [Match.start]
  cap_eq := rfl
  room := by simp [Match.start, sendingCount]
  covered := by simp [Match.start]
  returned := by simp [Match.start]

section
variable (h : Inv q starts s)
include h

/-- The goroutines have ended, nothing is in the channel and the launch loop is
    over: the explored objects are all that can be reached, and no match was met. -/
lemma Inv.not_answer (hret : s.ret = none) (hbuf : s.out.buf = [])
    (hclosed : s.out.closed = true) : ¬ Answer q starts := by
  obtain ⟨hframes, hlaunched⟩ := h.closed hclosed
  have hnone : s.toLaunch = [] ∧ s.waiting = none := by simpa [launching] using hlaunched
  have hsignal : ¬ s.Signal := by simp [Signal, hbuf, hframes]
  -- nothing is left to launch, so what is claimed has been explored
  have hexplored : ∀ {v}, s.Claimed v → v ∈ s.explored := by
    rintro v (hv | hv)
    · rw [hnone.1] at hv
      cases hv
    · exact hv
  have hdone : ∀ v ∈ s.explored, v ∉ q.idsFromUser ∧ ∀ w, Follows q v w → w ∈ s.explored := by
    intro v hv
    rcases h.covered hret hsignal v hv with hw | ⟨f, hf, -⟩ | ⟨hu, hall⟩
    · rw [hnone.2] at hw
      cases hw
    · rw [hframes] at hf
      exact absurd hf (Multiset.notMem_zero f)
    · refine ⟨hu, ?_⟩
      rintro w ⟨t, ht, hp, rfl⟩
      rcases hall t ht hp with hw | ⟨f, hf, -⟩
      · exact hexplored hw
      · rw [hframes] at hf
        exact absurd hf (Multiset.notMem_zero f)
  rintro ⟨u, hu, o, ho, hpath⟩
  have hreached : ∀ v, Relation.ReflTransGen (Follows q) o v → v ∈ s.explored := by
    intro v hv
    induction hv with
    | refl => exact hexplored (h.starts_claimed o ho)
    | tail _ hstep ih => exact (hdone _ ih).2 _ hstep
  exact (hdone u (hreached u hpath)).1 hu

/-- Receiving from the channel keeps the invariant: the answer is right. -/
lemma Inv.receive (hret : s.ret = none) (hl : ¬ s.launching)
    (hs : s.receive = some s') : Inv q starts s' := by
  unfold Match.receive at hs
  split at hs
  · cases hs
  next hrecv =>
    obtain ⟨hbuf, hclosed, -⟩ := Chan.recv_closed hrecv
    cases hs
    refine ⟨h.toLaunch_sub, h.waiting_sub, h.starts_claimed, h.frames_ok, h.msgs, h.err_none,
      h.closed, h.cap_eq, h.room, by simp, ?_⟩
    intro r hr
    cases hr
    exact ⟨h.err_none, by simpa using h.not_answer hret hbuf hclosed⟩
  next msg out hrecv =>
    obtain ⟨hbuf, hclosed⟩ := Chan.recv_value hrecv
    obtain ⟨rfl, hanswer⟩ := h.msgs msg (hbuf ▸ mem_cons_self)
    cases hs
    refine ⟨h.toLaunch_sub, h.waiting_sub, h.starts_claimed, h.frames_ok, ?_, h.err_none, ?_, ?_,
      fun hl' => absurd hl' hl, by simp, ?_⟩
    · exact fun m hm => h.msgs m (hbuf ▸ mem_cons_of_mem _ hm)
    · exact fun hc => h.closed (hclosed ▸ hc)
    · exact (Chan.recv_cap hrecv).trans h.cap_eq
    · intro r hr
      cases hr
      exact ⟨rfl, by simpa using hanswer⟩

theorem Inv.store {ids} (hret : s.ret = none)
    (htoLaunch : s.toLaunch = id :: ids) (hwaiting : s.waiting = none) :
    Inv q starts { s with toLaunch := ids, waiting := some id, visited := id :: s.visited,
                          explored := id :: s.explored } where
  toLaunch_sub := fun o ho => h.toLaunch_sub o (htoLaunch ▸ mem_cons_of_mem _ ho)
  waiting_sub := by
    intro o ho
    cases ho
    exact h.toLaunch_sub id (htoLaunch ▸ mem_cons_self)
  starts_claimed := fun o ho => (h.starts_claimed o ho).stored htoLaunch
  frames_ok := h.frames_ok
  msgs := h.msgs
  err_none := h.err_none
  closed := fun hc => absurd (.inl (by simp [htoLaunch])) (h.closed hc).2
  cap_eq := h.cap_eq
  room := fun _ => h.room (.inl (by simp [htoLaunch]))
  covered := by
    intro _ hn v hv
    rcases mem_cons.mp hv with rfl | hv
    · exact .inl rfl
    · refine (h.covered hret hn v hv).transfer (by simp [hwaiting]) ?_ ?_ ?_
      · exact fun f hf hm => .inr (.inl ⟨f, hf, hm⟩)
      · exact fun x hx => hx.stored htoLaunch
      · exact fun f hf t ht _ => .inr ⟨f, hf, ht⟩
  returned := h.returned

theorem Inv.launch (hret : s.ret = none)
    (hdisj : ∀ o ∈ starts, o ∉ q.idsFromUser) (hwaiting : s.waiting = some id) :
    Inv q starts { s with waiting := none, goroutines := s.goroutines ++ [[q.frame id]] } := by
  have hstart := h.waiting_sub id hwaiting
  have hold : s.launching := .inr (by simp [hwaiting])
  obtain ⟨s', hs'⟩ : ∃ s', s' =
      { s with waiting := none, goroutines := s.goroutines ++ [[q.frame id]] } := ⟨_, rfl⟩
  rw [← hs']
  have hframes : s'.frames = q.frame id ::ₘ s.frames := by
    rw [hs', frames, frames, Stacks.frames_append, Stacks.frames_singleton, add_comm,
      Multiset.coe_singleton, Multiset.singleton_add]
  have hkept : ∀ f ∈ s.frames, f ∈ s'.frames := fun f hf => hframes ▸ Multiset.mem_cons_of_mem hf
  have hexplored : s'.explored = s.explored := by rw [hs']
  have hclaimed : ∀ x, s.Claimed x → s'.Claimed x := by
    rw [hs']
    exact fun _ hx => hx
  have hout : s'.out = s.out := by rw [hs']
  refine ⟨by rw [hs']; exact h.toLaunch_sub, by simp [hs'],
    fun o ho => hclaimed o (h.starts_claimed o ho), ?_,
    hout ▸ h.msgs, by rw [hs']; exact h.err_none, ?_, hout ▸ h.cap_eq, ?_, ?_,
    by rw [hs']; exact h.returned⟩
  · intro f hf
    rw [hframes] at hf
    rcases Multiset.mem_cons.mp hf with rfl | hf
    · exact frame_ok ⟨id, hstart, Relation.ReflTransGen.refl⟩
    · exact h.frames_ok f hf
  · exact fun hc => absurd hold (h.closed (hout ▸ hc)).2
  · intro _
    have := h.room hold
    rw [hout, sendingCount_eq, hframes,
      Multiset.countP_cons_of_neg _ (by simp [MatchInput.frame]), ← sendingCount_eq]
    exact this
  · intro _ hn v hv
    have hsignal : ¬ s.Signal := by
      rintro (hb | ⟨f, hf, hfs⟩)
      · exact hn (.inl (hout ▸ hb))
      · exact hn (.inr ⟨f, hkept f hf, hfs⟩)
    refine (h.covered hret hsignal v (hexplored ▸ hv)).transfer ?_ ?_ hclaimed ?_
    · intro hw
      rw [hwaiting] at hw
      cases hw
      exact covered_of_frame (hdisj id hstart) (hframes ▸ Multiset.mem_cons_self _ _)
    · exact fun f hf hm => .inr (.inl ⟨f, hkept f hf, hm⟩)
    · exact fun f hf t ht _ => .inr ⟨f, hkept f hf, ht⟩

/-- Every step that neither drops a passing tuple for an unclaimed id nor overfills the
    channel keeps the invariant. -/
theorem Inv.step {a} (hnoErr : ∀ id, ∀ t ∈ q.tuplesForID id, ∃ b, q.passes t = .ok b)
    (hdisj : ∀ o ∈ starts, o ∉ q.idsFromUser)
    (hok : dropsPassing q s a = false ∧ overfills q s a = false) (hs : s.step q a = some s') :
    Inv q starts s' := by
  unfold Match.step at hs
  split at hs
  next hret =>
    cases a <;> simp only at hs
    case store =>
      split at hs <;> cases hs
      next htoLaunch hwaiting => exact h.store hret htoLaunch hwaiting
    case launch =>
      split at hs
      next hwaiting =>
        split at hs <;> cases hs
        exact h.launch hret hdisj hwaiting
      · cases hs
    case resume k =>
      obtain ⟨hsame, f, fs, others, hk, hf, hm⟩ := resume_cases hs
      refine h.moved hnoErr hsame hret hf ?_ ?_ hm
      · intro t rest hmode hrest hseen hp
        have := hok.1
        simpa [dropsPassing, top_resume hk, hmode, hrest, hseen, q.accepts_iff.mpr hp] using this
      · intro id hmode hid hl
        have := hok.2
        simpa [overfills, top_resume hk, hmode, hid, hl] using this
    case closeOut =>
      split at hs <;> cases hs
      next hdone =>
        have hframes : s.frames = 0 := by
          rw [frames, Stacks.frames_eq_zero]
          simpa [active, countP_eq_zero] using hdone.2.1
        exact ⟨h.toLaunch_sub, h.waiting_sub, h.starts_claimed, h.frames_ok, h.msgs, h.err_none,
          fun _ => ⟨hframes, hdone.1⟩, h.cap_eq, h.room, h.covered, h.returned⟩
    case receive =>
      split at hs
      next hl => exact h.receive hret hl hs
      · cases hs
  · cases hs

end

end OpenFGA.Check.Match
