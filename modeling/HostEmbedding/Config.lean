/-!
# Engine configuration

The two limits every store of an engine obeys, with their defaults.
-/

namespace HostEmbedding

structure Config where
  maxMemoryPages : UInt32
  maxCallDepth : UInt32
  deriving DecidableEq

namespace Config

def defaultMaxMemoryPages : UInt32 := 65536

def defaultMaxCallDepth : UInt32 := 1000

def standard : Config := ⟨defaultMaxMemoryPages, defaultMaxCallDepth⟩

inductive Setting where
  | pages (n : UInt32)
  | depth (n : UInt32)

def apply (c : Config) : Setting → Config
  | .pages n => { c with maxMemoryPages := n }
  | .depth n => { c with maxCallDepth := n }

def debugText (c : Config) : String :=
  "Config \x7b max_memory_pages: " ++ toString c.maxMemoryPages.toNat ++ ", max_call_depth: " ++
    toString c.maxCallDepth.toNat ++ " \x7d"

end Config

end HostEmbedding
