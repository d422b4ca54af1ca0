/-!
# Versions and identifiers

The constants that the documents of generator and runtime agree on.
-/

namespace PrimitiveAbi.Contract

def manifestVersion : String := "doit.abi.manifest@0.1.0"

def requiresVersion : String := "doit.abi.requires@0.1.0"

def reportVersion : String := "doit.abi.check.report@0.1.0"

/-- It changes when a primitive changes name, width or signedness. -/
def abiMajor : UInt32 := 1

def runtime : String := "doit.rt"

/-- The one symbol that generated code defines. -/
def entry : String := "entry"

end PrimitiveAbi.Contract
