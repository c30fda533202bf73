namespace SlowRequest.Word

def limit32 : Nat := 0x100000000

def limit64 : Nat := 0x10000000000000000

def signBit : Nat := 0x8000000000000000

end SlowRequest.Word
