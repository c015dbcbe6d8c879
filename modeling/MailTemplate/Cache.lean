import MailTemplate.Context.Decode
import MailTemplate.Event

/-!
A cache for one context in front of its provider. The provider is asked again only when the context
is missing or has expired. The current time is always given by the caller.

Instants and durations are in nanoseconds. An instant is kept only if its whole seconds fit 64 bits
with a sign.
-/

namespace MailTemplate

def nanosecondsPerSecond : Nat := 1000000000

structure Duration where
  nanoseconds : Nat
  deriving DecidableEq, Repr

structure Instant where
  nanoseconds : Int
  deriving DecidableEq, Repr

namespace Duration

def ofSeconds (seconds : Nat) : Duration :=
  ⟨seconds * nanosecondsPerSecond⟩

end Duration

namespace Instant

def seconds (instant : Instant) : Int :=
  Int.fdiv instant.nanoseconds nanosecondsPerSecond

def IsRepresentable (instant : Instant) : Prop :=
  -Nat.pow 2 63 ≤ instant.seconds ∧ instant.seconds < Nat.pow 2 63
  deriving Decidable

def add? (instant : Instant) (duration : Duration) : Option Instant :=
  let later : Instant := ⟨instant.nanoseconds + duration.nanoseconds⟩
  if later.IsRepresentable then some later else none

/-- The whole milliseconds since the epoch, zero before it and where they exceed 64 bits. -/
def unixMilliseconds (instant : Instant) : Nat :=
  let milliseconds := instant.nanoseconds.toNat / 1000000
  if milliseconds < Nat.pow 2 64 then milliseconds else 0

end Instant

/-- A context and the instant from which on it is out of date; without one it never is. -/
structure CachedContext where
  context : Context
  expiresAt : Option Instant
  deriving DecidableEq, Repr

namespace CachedContext

def withTtl (context : Context) (now : Instant) (ttl : Duration) : CachedContext :=
  ⟨context, now.add? ttl⟩

def isExpired (entry : CachedContext) (now : Instant) : Bool :=
  entry.expiresAt.any fun expiry => expiry.nanoseconds ≤ now.nanoseconds

end CachedContext

abbrev Provider := Nat → Except Error Context

structure ContextCache where
  ttl : Duration
  cached : Option CachedContext
  loads : Nat
  deriving DecidableEq, Repr

structure Fetch where
  result : Except Error Context
  cache : ContextCache
  events : List Event

namespace ContextCache

def new (ttl : Duration) : ContextCache :=
  ⟨ttl, none, 0⟩

def live? (cache : ContextCache) (now : Instant) : Option CachedContext :=
  cache.cached.filter fun entry => !entry.isExpired now

/-- Asks the provider for a new context. A failure leaves the cache empty. -/
def reload (cache : ContextCache) (provider : Provider) (now : Instant) : Fetch :=
  let loads := cache.loads + 1
  match provider cache.loads with
  | .error error => ⟨.error error, { cache with cached := none, loads }, []⟩
  | .ok context =>
      let entry := CachedContext.withTtl context now cache.ttl
      ⟨.ok context, { cache with cached := some entry, loads },
        [.contextReloaded context.size (entry.expiresAt.map Instant.unixMilliseconds)]⟩

def get (cache : ContextCache) (provider : Provider) (now : Instant) : Fetch :=
  match cache.live? now with
  | some entry => ⟨.ok entry.context, cache, []⟩
  | none => cache.reload provider now

def invalidate (cache : ContextCache) : ContextCache :=
  { cache with cached := none }

end ContextCache

end MailTemplate
