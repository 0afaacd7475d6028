import OmniMesh.Cli.Theorems
import OmniMesh.Core.Theorems
import OmniMesh.Crypto.Theorems
import OmniMesh.Crypto.Theorems.Secrecy
import OmniMesh.Discovery.Theorems
import OmniMesh.Discovery.Theorems.Service
import OmniMesh.Identity.Theorems
import OmniMesh.Identity.Theorems.Delete
import OmniMesh.Routing.Theorems
import OmniMesh.Routing.Theorems.Edit
import OmniMesh.Routing.Theorems.Horizon
import OmniMesh.Routing.Theorems.Metrics
import OmniMesh.Sdk.Theorems
import OmniMesh.Sdk.Theorems.Calls
import OmniMesh.Sdk.Theorems.Delivery
import OmniMesh.Sdk.Theorems.OverQuic
import OmniMesh.Sdk.Theorems.Packets
import OmniMesh.Sdk.Theorems.Screen
import OmniMesh.Sdk.Theorems.Sending
import OmniMesh.Service.Theorems
import OmniMesh.Service.Theorems.Chat
import OmniMesh.Transport.Theorems
import OmniMesh.Transport.Theorems.Ledger
import OmniMesh.Transport.Theorems.Mock
