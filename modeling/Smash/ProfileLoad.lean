import Smash.ProfileFile

/-! What loading a profile file leaves behind, for every file. -/
namespace Smash.ProfileFile

open ByteStream List
open PageMap (kNumClasses)

variable {builds : Bytes → Bool}

section Dictionaries

def Fits (builds : Bytes → Bool) (bytes : Bytes) : Prop :=
  (0 < bytes.length ∧ bytes.length ≤ kDictCapacity) ∧ builds bytes = true

instance (bytes : Bytes) : Decidable (Fits builds bytes) := instDecidableAnd

end Dictionaries

section Sections

end Sections

namespace CompressorThread

variable (thread : CompressorThread builds)

/-- A thread that has not loaded a profile: the engine is new and no class is trained. -/
def fresh : CompressorThread builds :=
  { thread with engine := some ⟨fun _ => none⟩, trained := fun _ => false }

end CompressorThread

end Smash.ProfileFile
