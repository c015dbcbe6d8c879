import Mathlib.Data.List.Basic
import Mathlib.Data.List.Induction
import MailTemplate.Cache

/-!
The cache along a run of requests, in any order and by any clock. What it holds, what it gives and
when it asks the provider is said about the history of the run alone.
-/

namespace MailTemplate

namespace Instant

def plus (instant : Instant) (duration : Duration) : Instant :=
  ⟨instant.nanoseconds + duration.nanoseconds⟩

theorem add?_eq (instant : Instant) (duration : Duration) :
    instant.add? duration =
      if (instant.plus duration).IsRepresentable then some (instant.plus duration) else none := rfl

end Instant

def Duration.Keeps (ttl : Duration) (loaded now : Instant) : Prop :=
  ¬(loaded.plus ttl).IsRepresentable ∨ now.nanoseconds < (loaded.plus ttl).nanoseconds

inductive Request where
  | get (now : Instant)
  | peek
  | invalidate

inductive Happening where
  | got (now : Instant) (answers : List (Except Error Context)) (result : Except Error Context)
  | peeked (entry : Option CachedContext)
  | invalidated

namespace Happening

def IsIdle : Happening → Prop
  | .got _ answers _ => answers = []
  | .peeked _ => True
  | .invalidated => False

def time? : Happening → Option Instant
  | .got now _ _ => some now
  | .peeked _ | .invalidated => none

end Happening

abbrev History := List Happening

namespace History

/-- The provider gave a context at an instant, and since then it was not asked again and nothing was
dropped. -/
def Loads (history : History) (loaded : Instant) (context : Context) : Prop :=
  ∃ before after, history = before ++ .got loaded [.ok context] (.ok context) :: after ∧
    ∀ happening ∈ after, happening.IsIdle

def Live (history : History) (ttl : Duration) (now : Instant) (context : Context) : Prop :=
  ∃ loaded, history.Loads loaded context ∧ ttl.Keeps loaded now

/-- How a get is answered after a history: from the latest load, or else by one call. -/
inductive Answers (history : History) (ttl : Duration) (now : Instant) :
    List (Except Error Context) → Except Error Context → Prop
  | kept {context} (live : history.Live ttl now context) : Answers history ttl now [] (.ok context)
  | called {answer} (none : ∀ context, ¬history.Live ttl now context) :
      Answers history ttl now [answer] answer

def InOrder (history : History) : Prop :=
  (history.filterMap Happening.time?).Pairwise fun first second =>
    first.nanoseconds ≤ second.nanoseconds

variable {history : History} {happening : Happening}

theorem append_singleton_eq_iff (before after : History) (other : Happening) :
    history ++ [happening] = before ++ other :: after ↔
      (history = before ∧ happening = other ∧ after = []) ∨
        ∃ earlier, history = before ++ other :: earlier ∧ after = earlier ++ [happening] := by
  rcases List.eq_nil_or_concat' after with rfl | ⟨earlier, last, rfl⟩
  · simp
  · rw [← List.cons_append, ← List.append_assoc, List.append_singleton_inj]
    constructor
    · rintro ⟨rfl, rfl⟩
      exact .inr ⟨earlier, rfl, rfl⟩
    · rintro (⟨_, _, none⟩ | ⟨others, inside, same⟩)
      · simp at none
      · obtain ⟨rfl, rfl⟩ := List.append_singleton_inj.mp same
        exact ⟨inside, rfl⟩

theorem loads_append_iff (loaded : Instant) (context : Context) :
    Loads (history ++ [happening]) loaded context ↔
      happening = .got loaded [.ok context] (.ok context) ∨
        happening.IsIdle ∧ history.Loads loaded context := by
  constructor
  · rintro ⟨before, after, split, idle⟩
    rcases (append_singleton_eq_iff _ _ _).mp split with ⟨_, same, _⟩ | ⟨earlier, inside, rfl⟩
    · exact .inl same
    · rw [List.forall_mem_append, List.forall_mem_singleton] at idle
      exact .inr ⟨idle.2, before, earlier, inside, idle.1⟩
  · rintro (rfl | ⟨idle, before, after, rfl, quiet⟩)
    · exact ⟨history, [], rfl, by simp⟩
    · refine ⟨before, after ++ [happening], by simp, ?_⟩
      rw [List.forall_mem_append, List.forall_mem_singleton]
      exact ⟨quiet, idle⟩

theorem exists_first_not_idle (member : happening ∈ history) (busy : ¬happening.IsIdle) :
    ∃ idle first rest, history = idle ++ first :: rest ∧ (∀ other ∈ idle, other.IsIdle) ∧
      ¬first.IsIdle := by
  induction history with
  | nil => cases member
  | cons other history ih =>
      by_cases quiet : other.IsIdle
      · rcases List.mem_cons.mp member with rfl | later
        · exact absurd quiet busy
        · obtain ⟨idle, first, rest, rfl, allIdle, firstBusy⟩ := ih later
          exact ⟨other :: idle, first, rest, rfl, List.forall_mem_cons.mpr ⟨quiet, allIdle⟩,
            firstBusy⟩
      · exact ⟨[], other, history, rfl, by simp, quiet⟩

theorem InOrder.le {before later : History} {first second : Instant}
    {answers others : List (Except Error Context)} {result another : Except Error Context}
    (order : history.InOrder) (split : history = before ++ .got first answers result :: later)
    (member : .got second others another ∈ later) : first.nanoseconds ≤ second.nanoseconds := by
  rw [InOrder, split, List.filterMap_append, List.pairwise_append] at order
  have inside : second ∈ later.filterMap Happening.time? :=
    List.mem_filterMap.mpr ⟨_, member, rfl⟩
  exact List.rel_of_pairwise_cons order.2.1 inside

theorem InOrder.loads_apart {ttl : Duration} {before between after : History}
    {first second : Instant} {early late : Context} (order : history.InOrder)
    (answers : ∀ before now answers result after,
      history = before ++ .got now answers result :: after → Answers before ttl now answers result)
    (split : history = before ++ .got first [.ok early] (.ok early) ::
      (between ++ .got second [.ok late] (.ok late) :: after))
    (kept : .invalidated ∉ between) :
    first.nanoseconds + ttl.nanoseconds ≤ second.nanoseconds := by
  have final : Happening.got second [.ok late] (.ok late) ∈
      between ++ [.got second [.ok late] (.ok late)] := by simp
  obtain ⟨idle, next, rest, cut, quiet, busy⟩ :=
    exists_first_not_idle final (by simp [Happening.IsIdle])
  have around : history = (before ++ .got first [.ok early] (.ok early) :: idle) ++
      next :: (rest ++ after) := by
    have inside : between ++ .got second [.ok late] (.ok late) :: after =
        idle ++ next :: (rest ++ after) := by
      rw [List.append_cons between, cut, List.append_assoc, List.cons_append]
    rw [split, inside, List.append_assoc, List.cons_append]
  -- The entry of the early load is still there for the first request that is not idle.
  cases next with
  | peeked entry => exact absurd trivial busy
  | invalidated =>
      have member : .invalidated ∈ between ++ [.got second [.ok late] (.ok late)] := by
        simp [cut]
      simp [kept] at member
  | got now given result =>
      cases answers _ _ _ _ _ around with
      | kept live => exact absurd rfl busy
      | called missing =>
          have expired : ¬ttl.Keeps first now := by
            intro keeps
            exact missing early ⟨first, ⟨before, idle, rfl, quiet⟩, keeps⟩
          simp only [Duration.Keeps, Instant.plus, not_or, not_not, Int.not_lt] at expired
          have notLater : now.nanoseconds ≤ second.nanoseconds := by
            rcases (append_singleton_eq_iff _ _ _).mp cut with ⟨_, same, _⟩ | ⟨_, _, same⟩
            · cases same
              exact Int.le_refl _
            · have later : .got second [.ok late] (.ok late) ∈ rest ++ after := by simp [same]
              exact order.le around later
          omega

end History

structure Session where
  history : History
  cache : ContextCache

namespace Session

def handle (provider : Provider) (session : Session) : Request → Session
  | .get now =>
      let fetch := session.cache.get provider now
      let calls := List.range' session.cache.loads (fetch.cache.loads - session.cache.loads)
      ⟨session.history ++ [.got now (calls.map provider) fetch.result], fetch.cache⟩
  | .peek => ⟨session.history ++ [.peeked session.cache.cached], session.cache⟩
  | .invalidate => ⟨session.history ++ [.invalidated], session.cache.invalidate⟩

def run (provider : Provider) (ttl : Duration) (requests : List Request) : Session :=
  requests.foldl (handle provider) ⟨[], .new ttl⟩

end Session

theorem CachedContext.isExpired_withTtl (context : Context) (loaded now : Instant)
    (ttl : Duration) :
    (withTtl context loaded ttl).isExpired now = false ↔ ttl.Keeps loaded now := by
  rw [withTtl, isExpired, Duration.Keeps, Instant.add?_eq]
  split
  · rename_i fits
    simp [fits]
  · rename_i exceeds
    simp [exceeds]

namespace ContextCache

variable {provider : Provider} {cache : ContextCache} {now : Instant}

theorem live?_eq_some_iff (entry : CachedContext) :
    cache.live? now = some entry ↔ cache.cached = some entry ∧ entry.isExpired now = false := by
  simp [live?, Option.filter_eq_some_iff]

theorem get_of_live {entry : CachedContext} (live : cache.live? now = some entry) :
    cache.get provider now = ⟨.ok entry.context, cache, []⟩ := by
  rw [get, live]

theorem get_of_none (missing : cache.live? now = none) :
    cache.get provider now = cache.reload provider now := by
  rw [get, missing]

theorem reload_eq (provider : Provider) (cache : ContextCache) (now : Instant) :
    (cache.reload provider now).result = provider cache.loads ∧
      (cache.reload provider now).cache =
        ⟨cache.ttl, (provider cache.loads).toOption.map (CachedContext.withTtl · now cache.ttl),
          cache.loads + 1⟩ := by
  cases answer : provider cache.loads with
  | error error => simp [reload, answer, Except.toOption]
  | ok context => simp [reload, answer, Except.toOption]

theorem cached_of_get_error {error : Error} (failed : (cache.get provider now).result = .error error) :
    (cache.get provider now).cache.cached = none := by
  cases live : cache.live? now with
  | some entry =>
      rw [get_of_live live] at failed
      cases failed
  | none =>
      obtain ⟨result, after⟩ := reload_eq provider cache now
      rw [get_of_none live, result] at failed
      rw [get_of_none live, after, failed]
      rfl

end ContextCache

namespace Session

variable {provider : Provider} {session : Session} {now : Instant}

theorem handle_get_of_live {entry : CachedContext} (live : session.cache.live? now = some entry) :
    session.handle provider (.get now) =
      ⟨session.history ++ [.got now [] (.ok entry.context)], session.cache⟩ := by
  simp [handle, ContextCache.get_of_live live]

theorem handle_get_of_none (missing : session.cache.live? now = none) :
    session.handle provider (.get now) =
      let answer := provider session.cache.loads
      let kept := answer.toOption.map (CachedContext.withTtl · now session.cache.ttl)
      ⟨session.history ++ [.got now [answer] answer],
        ⟨session.cache.ttl, kept, session.cache.loads + 1⟩⟩ := by
  obtain ⟨result, cache⟩ := ContextCache.reload_eq provider session.cache now
  simp [handle, ContextCache.get_of_none missing, result, cache]

/-- The cache holds the latest load of the history, and each get was answered from what stood in the
history before it. -/
structure Sound (ttl : Duration) (session : Session) : Prop where
  ttl_eq : session.cache.ttl = ttl
  holds : ∀ entry, session.cache.cached = some entry ↔
    ∃ loaded, session.history.Loads loaded entry.context ∧ entry.expiresAt = loaded.add? ttl
  answers : ∀ before now answers result after,
    session.history = before ++ .got now answers result :: after →
      History.Answers before ttl now answers result

theorem Sound.live?_iff {ttl : Duration} (sound : session.Sound ttl) (now : Instant)
    (context : Context) :
    session.history.Live ttl now context ↔
      ∃ entry, session.cache.live? now = some entry ∧ entry.context = context := by
  constructor
  · rintro ⟨loaded, loads, keeps⟩
    refine ⟨.withTtl context loaded ttl, ?_, rfl⟩
    rw [ContextCache.live?_eq_some_iff, CachedContext.isExpired_withTtl]
    exact ⟨(sound.holds _).mpr ⟨loaded, loads, rfl⟩, keeps⟩
  · rintro ⟨⟨context, expiresAt⟩, live, rfl⟩
    obtain ⟨cached, fresh⟩ := (ContextCache.live?_eq_some_iff _).mp live
    obtain ⟨loaded, loads, rfl⟩ := (sound.holds _).mp cached
    exact ⟨loaded, loads, (CachedContext.isExpired_withTtl _ _ _ _).mp fresh⟩

theorem sound_new (ttl : Duration) : Sound ttl ⟨[], .new ttl⟩ where
  ttl_eq := rfl
  holds entry := by simp [ContextCache.new, History.Loads]
  answers before now answers result after split := by simp at split

theorem Sound.append {ttl : Duration} (sound : session.Sound ttl) {happening : Happening}
    {cache : ContextCache} (ttl_eq : cache.ttl = session.cache.ttl)
    (holds : ∀ entry, cache.cached = some entry ↔
      ∃ loaded, (happening = .got loaded [.ok entry.context] (.ok entry.context) ∨
        happening.IsIdle ∧ session.history.Loads loaded entry.context) ∧
          entry.expiresAt = loaded.add? ttl)
    (answers : ∀ now answers result, happening = .got now answers result →
      session.history.Answers ttl now answers result) :
    Sound ttl ⟨session.history ++ [happening], cache⟩ where
  ttl_eq := ttl_eq.trans sound.ttl_eq
  holds entry := by simp only [holds, History.loads_append_iff]
  answers before now given result after split := by
    rcases (History.append_singleton_eq_iff _ _ _).mp split with ⟨rfl, same, _⟩ | ⟨_, inside, _⟩
    · exact answers now given result same
    · exact sound.answers _ _ _ _ _ inside

theorem Sound.handle {ttl : Duration} (sound : session.Sound ttl) (request : Request) :
    (session.handle provider request).Sound ttl := by
  cases request with
  | peek =>
      refine sound.append rfl ?_ (by rintro _ _ _ ⟨⟩)
      intro entry
      simp [sound.holds, Happening.IsIdle]
  | invalidate =>
      refine sound.append rfl ?_ (by rintro _ _ _ ⟨⟩)
      intro entry
      simp [ContextCache.invalidate, Happening.IsIdle]
  | get now =>
      cases live : session.cache.live? now with
      | some entry =>
          rw [handle_get_of_live live]
          refine sound.append rfl ?_ ?_
          · intro other
            simp [sound.holds, Happening.IsIdle]
          · rintro _ _ _ ⟨⟩
            exact .kept ((sound.live?_iff now entry.context).mpr ⟨entry, live, rfl⟩)
      | none =>
          rw [handle_get_of_none live]
          refine sound.append rfl ?_ ?_
          · rintro ⟨context, expiresAt⟩
            cases answer : provider session.cache.loads with
            | error error => simp [Happening.IsIdle, Except.toOption]
            | ok given =>
                rw [sound.ttl_eq]
                constructor
                · rintro ⟨⟩
                  exact ⟨now, .inl rfl, rfl⟩
                · rintro ⟨loaded, same | ⟨asked, _⟩, rfl⟩
                  · cases same
                    rfl
                  · cases asked
          · rintro _ _ _ ⟨⟩
            refine .called ?_
            intro context alive
            obtain ⟨entry, found, _⟩ := (sound.live?_iff now context).mp alive
            rw [live] at found
            cases found

theorem sound_run (provider : Provider) (ttl : Duration) (requests : List Request) :
    (run provider ttl requests).Sound ttl := by
  induction requests using List.reverseRecOn with
  | nil => exact sound_new ttl
  | append_singleton requests request ih =>
      rw [run, List.foldl_append]
      exact ih.handle request

end Session

/-- After any run the cache holds the latest load, each get of the run was answered from it or by one
call, a get that fails leaves nothing behind, and in a run with an orderly clock two loads without a
drop between them are as far apart as contexts are kept. -/
theorem ContextCache.serves_latest_load (provider : Provider) (ttl : Duration)
    (requests : List Request) :
    let session := Session.run provider ttl requests
    (∀ entry, session.cache.cached = some entry ↔
      ∃ loaded, session.history.Loads loaded entry.context ∧
        entry.expiresAt =
          if (loaded.plus ttl).IsRepresentable then some (loaded.plus ttl) else none) ∧
    (∀ before now answers result after,
      session.history = before ++ .got now answers result :: after →
        History.Answers before ttl now answers result) ∧
    (∀ now error, (session.cache.get provider now).result = .error error →
      (session.cache.get provider now).cache.cached = none) ∧
    (session.history.InOrder → ∀ (first second : Instant) early late before between after,
      session.history = before ++ .got first [.ok early] (.ok early) ::
        (between ++ .got second [.ok late] (.ok late) :: after) →
      .invalidated ∉ between → first.nanoseconds + ttl.nanoseconds ≤ second.nanoseconds) := by
  have sound := Session.sound_run provider ttl requests
  refine ⟨sound.holds, sound.answers, ?_, ?_⟩
  · intro now error failed
    exact ContextCache.cached_of_get_error failed
  · intro order first second early late before between after split kept
    exact order.loads_apart sound.answers split kept

def Provider.alternating : Provider := fun call =>
  if call % 2 = 0 then .ok .empty else .error (.provider [])

def Session.expiring : Session :=
  run .alternating ⟨5⟩ [.get ⟨0⟩, .get ⟨4⟩, .peek, .get ⟨5⟩, .get ⟨5⟩]

theorem ContextCache.serves_latest_load_expiring :
    Session.expiring.history.InOrder ∧
      History.Answers [.got ⟨0⟩ [.ok .empty] (.ok .empty)] ⟨5⟩ ⟨4⟩ [] (.ok .empty) ∧
      (Session.expiring.cache.get .alternating ⟨10⟩).result = .error (.provider []) ∧
      (Session.expiring.cache.get .alternating ⟨10⟩).cache.cached = none ∧
      (0 : Int) + (5 : Nat) ≤ 5 := by
  obtain ⟨_, answers, failed, apart⟩ := serves_latest_load .alternating ⟨5⟩
    [.get ⟨0⟩, .get ⟨4⟩, .peek, .get ⟨5⟩, .get ⟨5⟩]
  have order : Session.expiring.history.InOrder := by
    change List.Pairwise (fun first second : Instant => first.nanoseconds ≤ second.nanoseconds)
      [⟨0⟩, ⟨4⟩, ⟨5⟩, ⟨5⟩]
    decide
  have kept : Happening.invalidated ∉
      [.got ⟨4⟩ [] (.ok .empty), .peeked (some ⟨.empty, some ⟨5⟩⟩),
        .got ⟨5⟩ [.error (.provider [])] (.error (.provider []))] := by simp
  refine ⟨order, ?_, rfl, failed ⟨10⟩ (.provider []) rfl, ?_⟩
  · exact answers [.got ⟨0⟩ [.ok .empty] (.ok .empty)] ⟨4⟩ [] (.ok .empty) _ rfl
  · exact apart order ⟨0⟩ ⟨5⟩ .empty .empty [] _ [] rfl kept

end MailTemplate
