import Lai.Diagnostic.Failure
import Lai.Fixture
import Lai.Host.Session
import Lai.Main
import Lai.Numbering
import Lai.Proofs.Build.Pool
import Lai.Proofs.Build.Reports
import Lai.Proofs.C.Comparison
import Lai.Proofs.C.Containment
import Lai.Proofs.C.Expressions
import Lai.Proofs.C.Naming
import Lai.Proofs.C.Preservation
import Lai.Proofs.C.Scoping
import Lai.Proofs.Command.Atomicity
import Lai.Proofs.Command.Executable
import Lai.Proofs.Document
import Lai.Proofs.Grammar.Resumption
import Lai.Proofs.Grammar.Viability
import Lai.Proofs.Token.Listing
import Lai.Proofs.Token.Spelling
import Lai.Proofs.Tree.Scoping
import Lai.Proofs.Typing.Roots
