import HelloExtensions.Decoder
import HelloExtensions.Entries

/-!
Decoders under their names, with the logging that all of them share. The logger has the level of
the configuration that was checked last, whichever decoder that was for, and once the root logger
has a handler no other file is opened for a log. Nothing else passes between two decoders: to make
one leaves the others as they are.
-/
namespace HelloExtensions

/-- What a decoder is asked for. -/
inductive Query where
  | decode (bytes : List UInt8)
  | decodeOne (bytes : List UInt8)
  | summary (exts : List Extension)

/-- What is asked under a name: to make a decoder of this name, or something of it. -/
inductive Request where
  | create (settings? : Option Value)
  | ask (query : Query)

inductive Outcome where
  | created (result : Except Decoder.CreationError Unit)
  | extensions (result : Except ExtensionError (List Extension))
  | first (result : Except ExtensionError (Extension × List UInt8))
  | summary (result : Except ShapeError Decoder.Summary)
  /-- There is no decoder of the name. -/
  | noDecoder

/-- A call that answers the query, with all records that it makes. -/
def Decoder.answer (decoder : Decoder) : Query → Call Outcome
  | .decode bytes => (decoder.decode bytes).map .extensions
  | .decodeOne bytes => (decoder.decodeOne bytes).map .first
  | .summary exts => ⟨.summary (decoder.summary exts), [], ""⟩

structure Pool where
  logging : Logging
  decoders : Entries Decoder

namespace Pool

/-- A pool without decoders, where the root logger may have been given a handler before. -/
def start (handled : Bool) : Pool := ⟨⟨.notSet, handled⟩, []⟩

def find? (pool : Pool) (name : String) : Option Decoder := pool.decoders.lookup name

/-- Make a decoder of this name. Another one of the name is given up, whether or not the new one
can be made. -/
def create (host : Host) (name : String) (settings? : Option Value) (pool : Pool) :
    Except Decoder.CreationError Unit × Pool :=
  match Decoder.create host settings? pool.logging with
  | (.ok decoder, logging) => (.ok (), ⟨logging, pool.decoders.insert name decoder⟩)
  | (.error e, logging) => (.error e, ⟨logging, pool.decoders.erase name⟩)

/-- A call as it is seen: the level of the logger keeps some of its records back. -/
def observe {α : Type} (pool : Pool) (call : Call α) : Call α :=
  { call with records := pool.logging.level.filter call.records }

/-- The call that a request comes to, with all records that it makes. -/
def call (host : Host) (name : String) (request : Request) (pool : Pool) : Call Outcome × Pool :=
  match request with
  | .create settings? =>
    let (made, pool) := pool.create host name settings?
    (⟨.created made, [], ""⟩, pool)
  | .ask query => match pool.find? name with
    | some decoder => (decoder.answer query, pool)
    | none => (⟨.noDecoder, [], ""⟩, pool)

/-- Serve one request. -/
def step (host : Host) (name : String) (request : Request) (pool : Pool) : Call Outcome × Pool :=
  let (call, next) := pool.call host name request
  (pool.observe call, next)

section

variable (host : Host) (settings? : Option Value) (pool : Pool)

/-- The decoder that has been made does not depend on the decoders in the pool. -/
theorem find?_create_self (name : String) :
    (pool.create host name settings?).2.find? name =
      (Decoder.create host settings? pool.logging).1.toOption := by
  rw [create]
  split <;> simp_all [find?, Entries.lookup_insert, Entries.lookup_erase, Except.toOption]

/-- Making a decoder leaves those of other names as they are. -/
theorem find?_create_of_ne {name other : String} (h : other ≠ name) :
    (pool.create host name settings?).2.find? other = pool.find? other := by
  rw [create]
  split <;> simp [find?, Entries.lookup_insert, Entries.lookup_erase, h]

end

end Pool
end HelloExtensions
